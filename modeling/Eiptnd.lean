import Eiptnd.Wialon.Completions
import Eiptnd.Wialon.Acknowledging
import Eiptnd.Wialon.Blackbox
import Eiptnd.Wialon.Reader
import Eiptnd.Wialon.Receiving
import Eiptnd.Wialon.Grammar
import Eiptnd.Wialon.Isolation
import Eiptnd.Wialon.Trees
import Eiptnd.Wialon.ReplySize
import Eiptnd.Wialon.Images
import Eiptnd.Wialon.Wire
import Eiptnd.Wialon.Waiting
import Eiptnd.Wialon.Decoding
import Eiptnd.Wialon.FieldTable
import Eiptnd.Router.Accepting
import Eiptnd.Library.Pipeline
import Eiptnd.Dptree.Denotation
import Eiptnd.Redis.Client
import Eiptnd.Redis.Transitions
import Eiptnd.Redis.Requests
import Eiptnd.Redis.Reconnect
import Eiptnd.Redis.Connecting
import Eiptnd.Redis.Turns
import Eiptnd.Redis.Retrying
import Eiptnd.Redis.KeepAlive
import Eiptnd.Redis.Replies
import Eiptnd.Redis.Encoding
import Eiptnd.Redis.Malformed
import Eiptnd.Redis.Executed
import Eiptnd.Daemon.Process
import Eiptnd.Daemon.Delivered
