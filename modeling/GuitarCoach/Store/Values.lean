/- digest: The values that requests, rows and errors are made of. -/

import Mathlib

/-!
Ids reach a service as the text of the request, in any letter case; the `uuid` columns
hold and compare them in lower case, and a row gives its id back in that spelling.
-/

set_option autoImplicit false
set_option relaxedAutoImplicit false

namespace GuitarCoach

/-- Milliseconds since the epoch, as `Date.now()` counts them. -/
abbrev Instant := Int

def daysBefore (now : Instant) (days : Nat) : Instant := now - days * 24 * 60 * 60 * 1000

/-- The characters that `trim()` removes and `\s` matches. -/
def isWhitespace (c : Char) : Bool :=
  let n := c.toNat
  (9 ≤ n && n ≤ 13) || n = 32 || n = 0xA0 || n = 0x1680 || (0x2000 ≤ n && n ≤ 0x200A) ||
    n = 0x2028 || n = 0x2029 || n = 0x202F || n = 0x205F || n = 0x3000 || n = 0xFEFF

def lowerHex (s : String) : String := String.ofList (s.toList.map Char.toLower)

private theorem toLower_idem (c : Char) : c.toLower.toLower = c.toLower := by
  unfold Char.toLower
  split
  · split
    · grind
    · rfl
  · rfl

theorem lowerHex_idem (s : String) : lowerHex (lowerHex s) = lowerHex s := by
  have idem : Char.toLower ∘ Char.toLower = Char.toLower := funext toLower_idem
  simp [lowerHex, idem]

/-- A stored id, in the spelling the database gives back. -/
structure Uuid where
  text : String
  canonical : lowerHex text = text
deriving DecidableEq

/-- The id that a text stands for. -/
def Uuid.ofText (s : String) : Uuid := ⟨lowerHex s, lowerHex_idem s⟩

@[simp] theorem Uuid.ofText_text (u : Uuid) : Uuid.ofText u.text = u := by
  cases u with
  | mk text canonical => simp [ofText, canonical]

theorem Uuid.text_injective {u v : Uuid} (h : u.text = v.text) : u = v := by
  cases u
  cases v
  cases h
  rfl

/-- An optional property of a DTO: left out, `null`, or given. -/
inductive Field (α : Type)
  | absent
  | null
  | value (a : α)
deriving DecidableEq

namespace Field

variable {α : Type}

/-- The column value of a new row whose column defaults to `null`. -/
def toOption : Field α → Option α
  | absent => none
  | null => none
  | value a => some a

/-- The column value after an update: a property left out changes nothing. -/
def update (old : Option α) : Field α → Option α
  | absent => old
  | null => none
  | value a => some a

end Field

/-- A JSON value before validation. -/
inductive Json
  | null
  | bool (b : Bool)
  | num (value : ℚ)
  | str (s : String)
  | arr (items : List Json)
  | obj (fields : List (String × Json))

def Json.field? (name : String) : Json → Option Json
  | obj fields => fields.lookup name
  | _ => none

/-- `length` of a JavaScript string: its UTF-16 code units. -/
def utf16Length (s : String) : Nat :=
  (s.toList.map fun c => if c.val > 0xFFFF then 2 else 1).sum

/-- The texts that PostgreSQL takes: the character NUL is in none of them. -/
def fitsText (s : String) : Bool := s.toList.all fun c => c.toNat ≠ 0

/-- An integer of the range in which JavaScript numbers are exact, as zod's `int()` asks. -/
def safeInt? (value : ℚ) : Option Int :=
  if value.den = 1 ∧ value.num.natAbs ≤ 9007199254740991 then some value.num else none

namespace Json

def string? : Json → Option String
  | str s => some s
  | _ => none

def int? : Json → Option Int
  | num value => safeInt? value
  | _ => none

def array? : Json → Option (List Json)
  | arr items => some items
  | _ => none

end Json

/-- The HTTP exceptions of the services. -/
inductive Status
  | badRequest
  | notFound
  | conflict
  | badGateway
  | serviceUnavailable
  | gatewayTimeout
deriving DecidableEq

/-- One part of the text of an exception; what a library renders is kept as the value. -/
inductive Piece
  | text (s : String)
  | number (value : ℚ)
  | zodReport (received : Json)
  | stringified (value : Json)

abbrev Message := List Piece

inductive PrismaCode
  | P2002
  | P2003
  | P2025
  | P2034
deriving DecidableEq

/-- The errors of the OpenAI client that are told apart. -/
inductive OpenAiError
  | connectionTimeout
  | rateLimit
  | internalServer
  | api
deriving DecidableEq

/-- The errors of the agent SDK that are told apart. -/
inductive AgentError
  | inputGuardrail
  | maxTurnsExceeded
  | modelBehavior
  | toolCall
deriving DecidableEq

/-- What a method can throw. -/
inductive Failure
  | http (status : Status) (message : Message)
  | prisma (code : PrismaCode)
  /-- A RESTRICT violation, which Prisma does not map to a code. -/
  | restrictViolation
  /-- An integer that does not fit its `int4` column, or an offset beyond 64 bits. -/
  | valueOutOfRange
  /-- A text with the character NUL, which PostgreSQL refuses. -/
  | invalidText
  /-- Prisma refuses `null` for a required column. -/
  | invalidInvocation
  | openAi (error : OpenAiError)
  | agent (error : AgentError)
  /-- Any other error: a lost connection, a full disk, a bug. -/
  | unexpected (description : String)

def badRequest (s : String) : Failure := .http .badRequest [.text s]
def notFound (s : String) : Failure := .http .notFound [.text s]
def conflict (s : String) : Failure := .http .conflict [.text s]
def badGateway (s : String) : Failure := .http .badGateway [.text s]
def serviceUnavailable (s : String) : Failure := .http .serviceUnavailable [.text s]
def gatewayTimeout (s : String) : Failure := .http .gatewayTimeout [.text s]

end GuitarCoach
