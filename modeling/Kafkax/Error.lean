import Kafkax.Library.FileSystem

/-!
# The error type of the crate

`KafkaError` with the texts its constructors carry, whether an operation that failed with it may be
repeated, and the result type every public entry point returns.
-/

namespace Kafkax

open FileSystem

/-- The error enumeration of `error.rs`. -/
inductive KafkaError where
  | config (message : String)
  | connection (message : String)
  | backend (message : String)
  | transient (message : String)
  | serialization (message : String)
  | io (error : IoError)
  | timeout (message : String)
  | unsupported (message : String)
  | closed (message : String)
deriving DecidableEq, Repr

/-- `is_retryable` -/
def KafkaError.isRetryable : KafkaError → Bool
  | .connection _ | .transient _ | .timeout _ => true
  | .config _ | .backend _ | .serialization _ | .unsupported _ | .closed _ => false
  | .io error =>
    match error.kind with
    | .timedOut | .interrupted | .wouldBlock | .writeZero | .storageFull => true
    | _ => false

/-- `kind` -/
def KafkaError.kind : KafkaError → String
  | .config _ => "config"
  | .connection _ => "connection"
  | .backend _ => "backend"
  | .transient _ => "transient"
  | .serialization _ => "serialization"
  | .io _ => "io"
  | .timeout _ => "timeout"
  | .unsupported _ => "unsupported"
  | .closed _ => "closed"

/-- `Display` -/
def KafkaError.display : KafkaError → String
  | .config message => s!"配置无效: {message}"
  | .connection message => s!"连接失败: {message}"
  | .backend message => s!"远端返回错误: {message}"
  | .transient message => s!"远端瞬时故障: {message}"
  | .serialization message => s!"序列化失败: {message}"
  | .io error => s!"I/O 失败: {error.message}"
  | .timeout message => s!"操作超时: {message}"
  | .unsupported message => s!"不支持的操作: {message}"
  | .closed message => s!"连接池已关闭: {message}"

/-- The crate's result alias. -/
abbrev KafkaResult (α : Type) := Except KafkaError α

end Kafkax
