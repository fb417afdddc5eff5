/- digest: The redaction of logged values: sensitive keys, credentialed URLs, entered objects. -/

import GuitarCoach.Store.Values

/-!
An object has an identity, since `redact` remembers the objects it has entered. In a tree every
identity occurs once; a shared object is one identity at several places. A value that contains
itself is not of the type below: it is a node of an object graph.
-/

set_option autoImplicit false
set_option relaxedAutoImplicit false

namespace GuitarCoach

inductive Primitive
  | undefined
  | null
  | boolean (b : Bool)
  /-- A number, as `JSON.stringify` writes it. -/
  | number (text : String)
  | bigint (n : Int)
  | symbol (description : String)
  | string (s : String)
deriving DecidableEq

/-- A value without functions and without cycles; the identities of its objects are from `ν`. -/
inductive Value (ν : Type)
  | primitive (p : Primitive)
  | error (name message : String) (stack : Option String)
  | array (items : List (Value ν))
  | object (identity : ν) (entries : List (String × Value ν))

/-- What `redact` makes: all its objects are new. -/
inductive Redacted
  | primitive (p : Primitive)
  | array (items : List Redacted)
  | object (entries : List (String × Redacted))

theorem Value.induct {ν : Type} {P : Value ν → Prop} (primitive : ∀ p, P (.primitive p))
    (error : ∀ name message stack, P (.error name message stack))
    (array : ∀ items, (∀ v ∈ items, P v) → P (.array items))
    (object : ∀ i entries, (∀ e ∈ entries, P e.2) → P (.object i entries)) (v : Value ν) : P v :=
  @Value.rec ν P (fun items => ∀ v ∈ items, P v) (fun entries => ∀ e ∈ entries, P e.2)
    (fun e => P e.2) primitive error array object (List.forall_mem_nil _)
    (fun _ _ first rest => List.forall_mem_cons.mpr ⟨first, rest⟩) (List.forall_mem_nil _)
    (fun _ _ first rest => List.forall_mem_cons.mpr ⟨first, rest⟩) (fun _ _ h => h) v

theorem Redacted.induct {P : Redacted → Prop} (primitive : ∀ p, P (.primitive p))
    (array : ∀ items, (∀ v ∈ items, P v) → P (.array items))
    (object : ∀ entries, (∀ e ∈ entries, P e.2) → P (.object entries)) (v : Redacted) : P v :=
  @Redacted.rec P (fun items => ∀ v ∈ items, P v) (fun entries => ∀ e ∈ entries, P e.2)
    (fun e => P e.2) primitive array object (List.forall_mem_nil _)
    (fun _ _ first rest => List.forall_mem_cons.mpr ⟨first, rest⟩) (List.forall_mem_nil _)
    (fun _ _ first rest => List.forall_mem_cons.mpr ⟨first, rest⟩) (fun _ _ h => h) v

namespace Value

variable {ν α : Type}

/-- What is collected from a value: something from each primitive, error and object, below the
keys that it enters. -/
structure Reading (ν α : Type) where
  primitive : Primitive → List α
  error : String → String → Option String → List α
  object : ν → List α
  enters : String → Bool

mutual

def collect (r : Reading ν α) : Value ν → List α
  | .primitive p => r.primitive p
  | .error name message stack => r.error name message stack
  | .array items => collectItems r items
  | .object identity entries => r.object identity ++ collectEntries r entries

def collectItems (r : Reading ν α) : List (Value ν) → List α
  | [] => []
  | item :: items => collect r item ++ collectItems r items

def collectEntries (r : Reading ν α) : List (String × Value ν) → List α
  | [] => []
  | (key, value) :: entries =>
    (if r.enters key then collect r value else []) ++ collectEntries r entries

end

theorem collectItems_eq (r : Reading ν α) (items : List (Value ν)) :
    collectItems r items = items.flatMap (collect r) := by
  induction items with
  | nil => rfl
  | cons item items ih => rw [collectItems, ih, List.flatMap_cons]

theorem collectEntries_eq (r : Reading ν α) (entries : List (String × Value ν)) :
    collectEntries r entries =
      (entries.filter fun e => r.enters e.1).flatMap fun e => collect r e.2 := by
  induction entries with
  | nil => rfl
  | cons e entries ih =>
    rw [collectEntries, ih]
    cases enters : r.enters e.1 <;> simp [enters]

theorem forall_collect {r : Reading ν α} {D : α → Prop}
    (primitive : ∀ p, ∀ a ∈ r.primitive p, D a)
    (error : ∀ name message stack, ∀ a ∈ r.error name message stack, D a)
    (object : ∀ i, ∀ a ∈ r.object i, D a) (v : Value ν) : ∀ a ∈ collect r v, D a := by
  induction v using Value.induct with
  | primitive p => exact primitive p
  | error name message stack => exact error name message stack
  | array items ih =>
    rw [collect, collectItems_eq]
    intro a ha
    obtain ⟨v, hv, ha⟩ := List.mem_flatMap.mp ha
    exact ih v hv a ha
  | object i entries ih =>
    rw [collect, collectEntries_eq]
    intro a ha
    rcases List.mem_append.mp ha with ha | ha
    · exact object i a ha
    · obtain ⟨e, he, ha⟩ := List.mem_flatMap.mp ha
      exact ih e (List.mem_of_mem_filter he) a ha

/-- The identities of the objects that are met below the keys entered. -/
def objects (enters : String → Bool) : Value ν → List ν :=
  collect ⟨fun _ => [], fun _ _ _ => [], fun identity => [identity], enters⟩

end Value

/-! ### The patterns -/

/-- `REDACTED`. -/
def redactedText : String := "[REDACTED]"

/-- The alternatives of `SENSITIVE_KEY_PATTERN`. -/
def sensitiveWords : List String :=
  ["password", "passwd", "secret", "token", "authorization", "cookie", "apikey", "api-key",
    "api_key", "credential", "jwt"]

/-- `SENSITIVE_KEY_PATTERN.test(key)`. -/
def isSensitive (key : String) : Bool :=
  sensitiveWords.any fun word => word.toList <:+: key.toList.map Char.toLower

/-- `[a-z0-9+.-]`, in either case. -/
def isSchemeChar (c : Char) : Bool := c.isAlphanum || c = '+' || c = '.' || c = '-'

/-- `[^/@\s]`. -/
def isUserinfoChar (c : Char) : Bool := c ≠ '/' && c ≠ '@' && !isWhitespace c

/-- What follows `//userinfo@` in a text that begins so. -/
def afterUserinfo? (s : List Char) : Option (List Char) :=
  if ['/', '/'] <+: s then
    let authority := s.drop 2
    if authority.takeWhile isUserinfoChar ≠ [] ∧
        (authority.dropWhile isUserinfoChar).head? = some '@' then
      some (authority.dropWhile isUserinfoChar).tail
    else none
  else none

/-- `CREDENTIALED_URL_PATTERN.test(s)`. -/
def isCredentialedUrl : List Char → Bool
  | [] => false
  | c :: s =>
    let afterScheme := s.dropWhile isSchemeChar
    c.isAlpha && afterScheme.head? = some ':' && (afterUserinfo? afterScheme.tail).isSome

/-- Replaces the first `//userinfo@` by `//[REDACTED]@`. -/
def replaceUserinfo : List Char → List Char
  | [] => []
  | c :: s =>
    match afterUserinfo? (c :: s) with
    | some rest => "//[REDACTED]@".toList ++ rest
    | none => c :: replaceUserinfo s

def redactCredentialedUrl (input : String) : String :=
  if isCredentialedUrl input.toList then String.ofList (replaceUserinfo input.toList) else input

/-! ### redact -/

/-- What `redact` makes of a value that is neither an array nor an object. -/
def redactPrimitive : Primitive → Primitive
  | .string s => .string (redactCredentialedUrl s)
  | p => p

/-- What `redact` makes of an `Error`. -/
def redactError (name message : String) (stack : Option String) : Redacted :=
  .object [("name", .primitive (.string name)),
    ("message", .primitive (.string (redactCredentialedUrl message))),
    ("stack", .primitive (stack.elim .undefined .string))]

/-- `output[key] = value` before the later keys; under `__proto__` it makes no property. -/
def assign (key : String) (value : Redacted) (later : List (String × Redacted)) :
    List (String × Redacted) :=
  if key = "__proto__" then later else (key, value) :: later

section Redact

variable {ν : Type} [DecidableEq ν]

mutual

def redact : Value ν → Finset ν → Redacted × Finset ν
  | .primitive p, seen => (.primitive (redactPrimitive p), seen)
  | .error name message stack, seen => (redactError name message stack, seen)
  | .array items, seen =>
    let (output, seen) := redactItems items seen
    (.array output, seen)
  | .object identity entries, seen =>
    if identity ∈ seen then (.primitive (.string "[CIRCULAR]"), seen)
    else
      let (output, seen) := redactEntries entries (insert identity seen)
      (.object output, seen)

def redactItems : List (Value ν) → Finset ν → List Redacted × Finset ν
  | [], seen => ([], seen)
  | item :: items, seen =>
    let (first, seen) := redact item seen
    let (rest, seen) := redactItems items seen
    (first :: rest, seen)

def redactEntries : List (String × Value ν) → Finset ν → List (String × Redacted) × Finset ν
  | [], seen => ([], seen)
  | (key, entryValue) :: entries, seen =>
    let (value, seen) :=
      if isSensitive key then (.primitive (.string redactedText), seen)
      else redact entryValue seen
    let (rest, seen) := redactEntries entries seen
    (assign key value rest, seen)

end

theorem redact_array (items : List (Value ν)) (seen : Finset ν) :
    redact (.array items) seen =
      (.array (redactItems items seen).1, (redactItems items seen).2) := rfl

theorem redactItems_cons (item : Value ν) (items : List (Value ν)) (seen : Finset ν) :
    redactItems (item :: items) seen =
      ((redact item seen).1 :: (redactItems items (redact item seen).2).1,
        (redactItems items (redact item seen).2).2) := rfl

theorem redact_object (identity : ν) (entries : List (String × Value ν)) (seen : Finset ν) :
    redact (.object identity entries) seen =
      if identity ∈ seen then (.primitive (.string "[CIRCULAR]"), seen)
      else (.object (redactEntries entries (insert identity seen)).1,
        (redactEntries entries (insert identity seen)).2) := rfl

theorem redactEntries_cons_sensitive {key : String} (sensitive : isSensitive key = true)
    (v : Value ν) (entries : List (String × Value ν)) (seen : Finset ν) :
    redactEntries ((key, v) :: entries) seen =
      (assign key (.primitive (.string redactedText)) (redactEntries entries seen).1,
        (redactEntries entries seen).2) := by
  rw [redactEntries, if_pos sensitive]

theorem redactEntries_cons {key : String} (plain : isSensitive key = false) (v : Value ν)
    (entries : List (String × Value ν)) (seen : Finset ν) :
    redactEntries ((key, v) :: entries) seen =
      (assign key (redact v seen).1 (redactEntries entries (redact v seen).2).1,
        (redactEntries entries (redact v seen).2).2) := by
  rw [redactEntries, plain]
  rfl

end Redact

/-! ### JSON.stringify -/

/-- A UTF-16 code unit as four hexadecimal digits. -/
private def hex4 (n : Nat) : String :=
  String.ofList [Nat.digitChar (n / 4096 % 16), Nat.digitChar (n / 256 % 16),
    Nat.digitChar (n / 16 % 16), Nat.digitChar (n % 16)]

/-- A character inside a JSON string. -/
def quoteChar (c : Char) : String :=
  if c = '"' then "\\\"" else if c = '\\' then "\\\\"
  else if c.toNat = 8 then "\\b" else if c.toNat = 9 then "\\t" else if c.toNat = 10 then "\\n"
  else if c.toNat = 12 then "\\f" else if c.toNat = 13 then "\\r"
  else if c.toNat < 32 then "\\u" ++ hex4 c.toNat else c.toString

def quote (s : String) : String := "\"" ++ String.join (s.toList.map quoteChar) ++ "\""

mutual

/-- `JSON.stringify`, where `none` is `undefined`; it throws at a BigInt. -/
def stringify : Redacted → Except Failure (Option String)
  | .primitive .undefined => .ok none
  | .primitive .null => .ok (some "null")
  | .primitive (.boolean b) => .ok (some (toString b))
  | .primitive (.number text) => .ok (some text)
  | .primitive (.bigint _) => .error (.unexpected "Do not know how to serialize a BigInt")
  | .primitive (.symbol _) => .ok none
  | .primitive (.string s) => .ok (some (quote s))
  | .array items => do
    let texts ← stringifyItems items
    return some ("[" ++ ",".intercalate texts ++ "]")
  | .object entries => do
    let texts ← stringifyEntries entries
    return some ("\x7b" ++ ",".intercalate texts ++ "\x7d")

def stringifyItems : List Redacted → Except Failure (List String)
  | [] => .ok []
  | item :: items => do
    let text ← stringify item
    let texts ← stringifyItems items
    return text.getD "null" :: texts

def stringifyEntries : List (String × Redacted) → Except Failure (List String)
  | [] => .ok []
  | (key, value) :: entries => do
    let text ← stringify value
    let texts ← stringifyEntries entries
    return text.elim texts fun text => (quote key ++ ":" ++ text) :: texts

end

end GuitarCoach
