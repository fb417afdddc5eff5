/- digest: StructuredLoggerService: one redacted JSON line for each call. -/

import GuitarCoach.Observability.Redaction

set_option autoImplicit false
set_option relaxedAutoImplicit false

namespace GuitarCoach

/-- An identity that no object of these values has. -/
def Value.newIdentity (values : List (Value Nat)) : Nat :=
  (values.flatMap (Value.objects fun _ => true)).foldr max 0 + 1

inductive LogLevel
  | verbose
  | debug
  | log
  | warn
  | error
  | fatal
deriving DecidableEq

namespace LogLevel

/-- `LEVEL_ORDER`. -/
def order : LogLevel → Nat
  | .verbose => 0
  | .debug => 1
  | .log => 2
  | .warn => 3
  | .error => 4
  | .fatal => 5

def text : LogLevel → String
  | .verbose => "verbose"
  | .debug => "debug"
  | .log => "log"
  | .warn => "warn"
  | .error => "error"
  | .fatal => "fatal"

end LogLevel

structure RequestContextData where
  requestId : String
  correlationId : String

inductive Stream
  | stdout
  | stderr
deriving DecidableEq

structure StructuredLoggerService where
  serviceName : String
  environment : String
  minLevel : LogLevel

namespace StructuredLoggerService

/-- The constructor; an unknown level counts as `log`. -/
def new (serviceName environment : String) (logLevel : Option LogLevel) :
    StructuredLoggerService :=
  ⟨serviceName, environment, logLevel.getD .log⟩

def setLogLevels (logger : StructuredLoggerService) (levels : List LogLevel) :
    StructuredLoggerService :=
  let lower (min : Option LogLevel) (level : LogLevel) : Option LogLevel :=
    match min with
    | none => some level
    | some least => if level.order < least.order then some level else min
  { logger with minLevel := (levels.foldl lower none).getD logger.minLevel }

def isEnabled (logger : StructuredLoggerService) (level : LogLevel) : Bool :=
  logger.minLevel.order ≤ level.order

section Arguments

variable {ν : Type}

def collapseMeta : List (Value ν) → Value ν
  | [] => .primitive .undefined
  | [only] => only
  | rest => .array rest

/-- The context, when the last argument is a string, and the metadata. -/
def parseArgs (args : List (Value ν)) : Option String × Value ν :=
  match args.getLast? with
  | some (.primitive (.string last)) => (some last, collapseMeta args.dropLast)
  | _ => (none, collapseMeta args)

/-- A property that holds a string or is `undefined`. -/
def text? (s : Option String) : Value ν := .primitive (s.elim .undefined .string)

/-- `message` is an `Error`'s text, and its stack has a property of its own. -/
def messageFields : Value ν → List (String × Value ν)
  | .error _ message stack => [("message", text? (some message)), ("stack", text? stack)]
  | message => [("message", message)]

def metaFields : Value ν → List (String × Value ν)
  | .primitive .undefined => []
  | value => [("meta", value)]

end Arguments

/-- The object literal that `write` hands to `redact`. -/
def fields (logger : StructuredLoggerService) (now : String)
    (requestContext : Option RequestContextData) (level : LogLevel) (message : Value Nat)
    (args : List (Value Nat)) : List (String × Value Nat) :=
  [("timestamp", text? (some now)), ("level", text? (some level.text)),
    ("service", text? (some logger.serviceName)),
    ("environment", text? (some logger.environment)), ("context", text? (parseArgs args).1),
    ("requestId", text? (requestContext.map (·.requestId))),
    ("correlationId", text? (requestContext.map (·.correlationId)))] ++
    messageFields message ++ metaFields (parseArgs args).2

/-- The redacted entry; the object literal is an object of its own. -/
def entry (logger : StructuredLoggerService) (now : String)
    (requestContext : Option RequestContextData) (level : LogLevel) (message : Value Nat)
    (args : List (Value Nat)) : Redacted :=
  (redact (.object (Value.newIdentity (message :: args))
    (fields logger now requestContext level message args)) ∅).1

/-- The line that a call writes, and where; nothing below the minimum level. -/
def write (logger : StructuredLoggerService) (now : String)
    (requestContext : Option RequestContextData) (level : LogLevel) (message : Value Nat)
    (args : List (Value Nat)) : Except Failure (Option (Stream × String)) := do
  if logger.isEnabled level = false then return none
  let line ← stringify (entry logger now requestContext level message args)
  let stream := if level = .error ∨ level = .fatal then Stream.stderr else .stdout
  return some (stream, line.getD "undefined" ++ "\n")

end StructuredLoggerService

end GuitarCoach
