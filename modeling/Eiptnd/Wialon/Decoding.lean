import Eiptnd.Wialon.Grammar

/-! What a well-formed line means.

A line with as many fields as its command has is decoded into them: a login asks for the
connection, any other command hands a record over. -/
namespace Eiptnd.Wialon

open Reactive

/-- The fields of a command in the order in which the protocol sends them. -/
def protocolFields : Command → List Str
  | .login => ["imei".toList, "password".toList]
  | .data =>
    ["date".toList, "time".toList, "lat1".toList, "lat2".toList, "lon1".toList, "lon2".toList,
     "speed".toList, "course".toList, "height".toList, "sats".toList, "hdop".toList,
     "inputs".toList, "outputs".toList, "adc".toList, "ibutton".toList, "params".toList]
  | .shortdata =>
    ["date".toList, "time".toList, "lat1".toList, "lat2".toList, "lon1".toList, "lon2".toList,
     "speed".toList, "course".toList, "height".toList, "sats".toList]
  | .message => ["message".toList]
  | _ => []

/-- The commands that carry one record. -/
def Command.OneRecord (c : Command) : Prop :=
  c = .login ∨ c = .data ∨ c = .shortdata ∨ c = .message

/-- Neither a delimiter nor a part of a line end. -/
def Bare (s : Str) : Prop := ∀ c ∈ s, c ∉ [';', '#', '|', '\r', '\n']

/-- `p#C#f1;...;fk`. -/
def commandLine (start : Str) (c : Command) (record : List Str) : Str :=
  start ++ '#' :: (c.name ++ '#' :: [';'].intercalate record)

/-- What a line asks for: no reply, no error. -/
def requests (out : List Effect) : List Call :=
  out.filterMap fun
    | .authenticate imei password => some (.authenticate imei password)
    | .processData _ content => some (.processData content)
    | _ => none

/-- The call that a record of a command stands for. -/
def decoded (c : Command) (record : List Str) : Call :=
  match c, record with
  | .login, [imei, password] => .authenticate imei password
  | _, _ => .processData ((protocolFields c).zip record)

theorem fieldNames_eq {c : Command} (kind : c.OneRecord) : fieldNames c = protocolFields c := by
  rcases kind with rfl | rfl | rfl | rfl <;> rfl

/-! ### The fields -/

theorem Bare.plain {field : Str} (bare : Bare field) : Plain field := by
  intro c member
  have other := bare c member
  simp only [List.mem_cons, List.not_mem_nil, or_false, not_or] at other
  simp [other.1, other.2.1, other.2.2.1]

theorem Bare.newline {s : Str} (bare : Bare s) : '\n' ∉ s := fun member => bare '\n' member (by simp)

private theorem newline_intercalate {record : List Str} (bare : ∀ field ∈ record, Bare field) :
    '\n' ∉ [';'].intercalate record := by
  induction record with
  | nil => simp [List.intercalate]
  | cons field record ih =>
    have first := (bare field List.mem_cons_self).newline
    have later := ih fun other member => bare other (List.mem_cons_of_mem _ member)
    cases record with
    | nil => simpa [List.intercalate] using first
    | cons next record =>
      rw [List.intercalate_cons_cons]
      simp [first, later]

theorem commandLine_open {start : Str} {c : Command} {record : List Str} (first : Bare start)
    (bare : ∀ field ∈ record, Bare field) : Lines.Open '\r' '\n' (commandLine start c record) := by
  have name : '\n' ∉ c.name := by cases c <;> decide
  intro inside
  have member : '\n' ∈ commandLine start c record := inside.subset (by simp)
  simp [commandLine, first.newline, name, newline_intercalate bare] at member

section Line

variable {boost : Boost} {granted opened : Bool} {c : Command} {p : Plugin}

/-- A field that is not the last one. -/
private theorem fill_next {tok : Str} {done : List Str} (notEnd : tok ≠ crlf)
    (other : c ≠ .blackbox) (here : p.state = .body) (filling : Filling opened c done p)
    (short : done.length < (fields c).length) : ∃ q,
    consumeToken boost granted tok p = .ok q ∧ Filling opened c (done ++ [tok]) q ∧
      q.state = if done.length + 1 = (fields c).length then .end_ else .body := by
  obtain ⟨rfl, cmd, estimate, clean, authenticated, t, tree, stored⟩ := filling
  obtain ⟨trees, put, after⟩ := consumeField_fills short rfl estimate tree stored
  have moved : consumeToken boost granted tok p = (consumeField tok p).andThen fun p =>
      if p.estimate = 0 then
        .ok { p with state := if p.currentCmd ≠ Command.blackbox then .end_ else .bar }
      else .ok p := by
    simp [consumeToken, notEnd, here, consumeBody, other]
  have left : p.estimate - 1 = (fields p.currentCmd).length - (done ++ [tok]).length := by
    simp only [estimate, List.length_append, List.length_singleton]
    omega
  rw [moved, put, Outcome.ok_andThen]
  dsimp only
  by_cases last : done.length + 1 = (fields p.currentCmd).length
  · rw [if_pos (by omega), if_pos other, if_pos last]
    exact ⟨_, rfl, ⟨rfl, cmd, left, clean, authenticated, t, tree, after⟩, rfl⟩
  · rw [if_neg (by omega), if_neg last]
    exact ⟨_, rfl, ⟨rfl, cmd, left, clean, authenticated, t, tree, after⟩, here⟩

/-- The fields go into the tree one by one, and nothing is put out. -/
private theorem fill_rest {toks done : List Str} (clean : crlf ∉ toks) (other : c ≠ .blackbox)
    (here : p.state = .body) (filling : Filling opened c done p)
    (count : done.length + toks.length = (fields c).length) (some : toks ≠ []) :
    ∃ q, consumeTokens boost granted toks p = .ok q ∧ q.state = .end_ ∧
      Filling opened c (done ++ toks) q := by
  induction toks generalizing done p with
  | nil => exact absurd rfl some
  | cons tok toks ih =>
    simp only [List.mem_cons, not_or] at clean
    rw [List.length_cons] at count
    obtain ⟨q, moved, next, state⟩ :=
      fill_next (Ne.symm clean.1) other here filling (by omega)
    rw [consumeTokens_ok boost granted moved]
    cases toks with
    | nil =>
      rw [List.length_nil] at count
      rw [if_pos (by omega)] at state
      exact ⟨q, rfl, state, next⟩
    | cons more toks =>
      rw [List.length_cons] at count
      rw [if_neg (by omega)] at state
      have joined : done ++ tok :: more :: toks = (done ++ [tok]) ++ more :: toks := by simp
      rw [joined]
      exact ih clean.2 state next (by simp; omega) (List.cons_ne_nil _ _)

/-- A full record is committed by one call. -/
private theorem commit_decoded {record : List Str} (kind : c.OneRecord)
    (filling : Filling opened c record p) (count : record.length = (fields c).length) :
    (commitCommand boost granted p).fault = none ∧
      (∀ message, .parserError message ∉ (commitCommand boost granted p).output) ∧
      requests (commitCommand boost granted p).output = [decoded c record] := by
  obtain ⟨currentCmd, -, -, clean, -, t, tree, stored⟩ := filling
  have content : p.content = (protocolFields c).zip record := by
    simp [Plugin.content, tree, stored, fieldTree, fieldNames_eq kind]
  rw [commitCommand]
  simp only [tree, currentCmd, clean, content]
  rcases kind with rfl | rfl | rfl | rfl
  · obtain ⟨imei, password, rfl⟩ := List.length_eq_two.mp count
    have first : ((protocolFields .login).zip [imei, password]).lookup "imei".toList = some imei :=
      rfl
    have second : ((protocolFields .login).zip [imei, password]).lookup "password".toList =
        some password := rfl
    simp only [first, second]
    cases granted <;>
      exact ⟨rfl, by simp [handleAuthenticate, answer_output], by
        simp [handleAuthenticate, answer_output, requests, decoded]⟩
  · exact ⟨rfl, by simp [storeData], by simp [storeData, requests, content, decoded]⟩
  · exact ⟨rfl, by simp [storeData], by simp [storeData, requests, content, decoded]⟩
  · exact ⟨rfl, by simp [storeData], by simp [storeData, requests, content, decoded]⟩

/-- The tokens of a well-formed line lead to the end of its record, and put nothing out. -/
private theorem line_fills {start : Str} {record : List Str} (here : p.state = .initial)
    (kind : c.OneRecord) (allowed : p.authenticated = true ∨ c = .login) (first : Bare start)
    (bare : ∀ field ∈ record, Bare field) (count : record.length = (fields c).length) :
    ∃ q, parseString boost granted (commandLine start c record) p = .ok q ∧ q.state = .end_ ∧
      Filling p.authenticated c record q := by
  have clean := tokens_crlf (commandLine_open (c := c) first bare)
  have other : c ≠ .blackbox := by rcases kind with rfl | rfl | rfl | rfl <;> decide
  have some : record ≠ [] := by
    apply List.ne_nil_of_length_pos
    rw [count]
    rcases kind with rfl | rfl | rfl | rfl <;> decide
  have found : body (tokens (commandLine start c record)) = .some (c.name, record) :=
    grammar_body first.plain some fun field member => (bare field member).plain
  obtain ⟨estimate, known⟩ := c.known
  have rest : crlf ∉ record := by
    intro member
    exact bare crlf member '\r' (by simp [crlf]) (by simp)
  cases line_starts boost granted clean here with
  | idle _ unnamed =>
    obtain ⟨closed, named⟩ := unnamed _ _ _ _ found known
    rcases allowed with opened | login
    · rw [opened] at closed
      cases closed
    · exact absurd login named
  | @named cmd record' _ c' q found' known' _ inside filling same =>
    cases found.symm.trans found'
    cases known.symm.trans known'
    have whole : ([] : List Str).length + record.length = (fields c).length := by simpa using count
    obtain ⟨q', filled, state, full⟩ :=
      @fill_rest boost granted _ c q _ _ rest other inside filling whole some
    exact ⟨q', same.trans filled, state, full⟩

end Line

/-- A well-formed line raises no error and makes the one call it stands for, whatever came
before it. -/
theorem line_decoded {boost : Boost} {granted : Bool} {s : Session}
    (reached : (session boost).Reachable s) (alive : s.crashed = false) (boundary : s.pending = [])
    {c : Command} (kind : c.OneRecord) (allowed : s.plugin.authenticated = true ∨ c = .login)
    {start : Str} {record : List Str} (first : Bare start) (bare : ∀ field ∈ record, Bare field)
    (count : record.length = (protocolFields c).length) :
    (handleLine boost granted (commandLine start c record) s.plugin).fault = none ∧
      (∀ message, .parserError message ∉
        (handleLine boost granted (commandLine start c record) s.plugin).output) ∧
      requests (handleLine boost granted (commandLine start c record) s.plugin).output =
        [decoded c record] := by
  have count' : record.length = (fields c).length := by
    rw [count, ← fieldNames_eq kind, fieldNames_length]
  obtain ⟨q, parsed, state, filling⟩ :=
    line_fills (Session.at_rest reached alive boundary) kind allowed first bare count'
  have ended : endOfLine boost granted q = commitCommand boost granted q := by
    simp only [endOfLine, state]
  obtain ⟨fault, quiet, called⟩ := commit_decoded kind filling count'
  rw [handleLine, parsed, Outcome.ok_andThen, consumeToken, if_pos rfl, consumeEnd_fault,
    consumeEnd_output, ended]
  exact ⟨fault, quiet, called⟩

/-- A short record with empty fields, after the login. -/
theorem line_decoded_short : requests (handleLine plain true
    (commandLine [] .shortdata (List.replicate 10 [])) loggedIn.plugin).output =
      [.processData ((protocolFields .shortdata).zip (List.replicate 10 []))] := by
  obtain ⟨alive, boundary, authenticated⟩ := loggedIn_ready
  have bare : ∀ field ∈ List.replicate 10 ([] : Str), Bare field := by
    intro field member
    rw [(List.mem_replicate.mp member).2]
    simp [Bare]
  have first : Bare ([] : Str) := by simp [Bare]
  have kind : Command.OneRecord .shortdata := Or.inr (Or.inr (Or.inl rfl))
  obtain ⟨-, -, called⟩ := @line_decoded plain true _ loggedIn_reachable alive boundary _ kind
    (Or.inl authenticated) _ _ first bare rfl
  exact called

end Eiptnd.Wialon
