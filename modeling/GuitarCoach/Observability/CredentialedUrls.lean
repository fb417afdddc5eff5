/- digest: Which credentialed URLs are redacted, and which reach the log. -/

import GuitarCoach.Observability.Trees

set_option autoImplicit false
set_option relaxedAutoImplicit false

namespace GuitarCoach

/-! ### URLs inside a text -/

/-- `[a-z][a-z0-9+.-]*`, in either case. -/
def IsScheme : List Char → Prop
  | [] => False
  | c :: s => c.isAlpha = true ∧ ∀ d ∈ s, isSchemeChar d = true

/-- `[^/@\s]+`. -/
def IsUserinfo (s : List Char) : Prop := s ≠ [] ∧ ∀ c ∈ s, isUserinfoChar c = true

/-- `scheme://user@` stands in the text, followed by `after`. -/
structure UrlAt (s before scheme user after : List Char) : Prop where
  isScheme : IsScheme scheme
  isUser : IsUserinfo user
  text : s = before ++ scheme ++ ':' :: '/' :: '/' :: (user ++ '@' :: after)

/-- The text holds a URL with credentials that are not redacted. -/
def Exposes (s : List Char) : Prop :=
  ∃ before scheme user after, UrlAt s before scheme user after ∧ user ≠ redactedText.toList

/-- The text holds such a URL elsewhere than at its beginning. -/
def ExposesLater (s : List Char) : Prop :=
  ∃ before scheme user after, UrlAt s before scheme user after ∧ user ≠ redactedText.toList ∧
    ¬IsScheme (before ++ scheme)

private theorem scheme_chars {s : List Char} (scheme : IsScheme s) :
    ∀ c ∈ s, isSchemeChar c = true := by
  cases s with
  | nil => exact scheme.elim
  | cons c s =>
    intro d hd
    rcases List.mem_cons.mp hd with rfl | hd
    · have alpha : d.isAlpha = true := scheme.1
      simp [isSchemeChar, Char.isAlphanum, alpha]
    · exact scheme.2 d hd

private theorem not_in_scheme {s : List Char} (scheme : IsScheme s) {c : Char}
    (other : isSchemeChar c = false) : c ∉ s := by
  intro there
  rw [scheme_chars scheme c there] at other
  cases other

private theorem not_in_user {s : List Char} (user : IsUserinfo s) {c : Char}
    (other : isUserinfoChar c = false) : c ∉ s := by
  intro there
  rw [user.2 c there] at other
  cases other

/-- Two ways to cut a text at a character: at the same place, or one after the other. -/
private theorem cut {a b x y : List Char} {c d : Char} (same : a ++ c :: x = b ++ d :: y) :
    (b = a ∧ c = d ∧ x = y) ∨ (∃ m, b = a ++ c :: m ∧ x = m ++ d :: y) ∨
      ∃ m, a = b ++ d :: m ∧ y = m ++ c :: x := by
  rcases List.append_eq_append_iff.mp same with ⟨k, hb, hx⟩ | ⟨k, ha, hy⟩
  · cases k with
    | nil =>
      left
      rw [List.nil_append] at hx
      injection hx with first rest
      exact ⟨by simpa using hb, first, rest⟩
    | cons e k =>
      right; left
      injection hx with first rest
      subst first
      exact ⟨k, hb, rest⟩
  · cases k with
    | nil =>
      left
      rw [List.nil_append] at hy
      injection hy with first rest
      exact ⟨by simpa using ha.symm, first.symm, rest.symm⟩
    | cons e k =>
      right; right
      injection hy with first rest
      subst first
      exact ⟨k, ha, rest⟩

/-- A scheme that ends where a text after an `@` ends lies inside that text. -/
private theorem scheme_after {x m before scheme : List Char} (isScheme : IsScheme scheme)
    (same : x ++ '@' :: m = before ++ scheme) :
    ∃ k, m = k ++ scheme ∧ before = x ++ '@' :: k := by
  rw [List.append_cons] at same
  rcases List.append_eq_append_iff.mp same with ⟨k, hbefore, hm⟩ | ⟨k, hx, hscheme⟩
  · exact ⟨k, hm, by simp [hbefore]⟩
  · rcases List.eq_nil_or_concat k with rfl | ⟨k, z, rfl⟩
    · rw [List.nil_append] at hscheme
      rw [List.append_nil] at hx
      exact ⟨[], by simp [hscheme], by rw [← hx]⟩
    · rw [List.concat_eq_append, ← List.append_assoc] at hx
      obtain ⟨-, last⟩ := List.append_inj' hx rfl
      injection last with last
      have there : '@' ∈ scheme := by
        rw [hscheme, last]
        simp
      exact absurd there (not_in_scheme isScheme (by decide))

/-- A URL in a text that begins with a URL is this one or comes after it. -/
private theorem first_or_later {scheme user rest before scheme' user' after : List Char}
    (isScheme : IsScheme scheme) (isUser : IsUserinfo user)
    (url : UrlAt (scheme ++ ':' :: '/' :: '/' :: (user ++ '@' :: rest)) before scheme' user' after) :
    (before ++ scheme' = scheme ∧ user' = user) ∨
      ∃ k, UrlAt rest k scheme' user' after ∧
        before = scheme ++ ':' :: '/' :: '/' :: (user ++ '@' :: k) := by
  have same := url.text
  rcases cut same with ⟨hbefore, -, hrest⟩ | ⟨m, hbefore, hrest⟩ | ⟨m, hscheme, -⟩
  · left
    refine ⟨hbefore, ?_⟩
    injection hrest with _ hrest
    injection hrest with _ hrest
    rcases cut hrest with ⟨huser, -, -⟩ | ⟨m, huser, -⟩ | ⟨m, huser, -⟩
    · exact huser
    · have there : '@' ∈ user' := by simp [huser]
      exact absurd there (not_in_user url.isUser (by decide))
    · have there : '@' ∈ user := by simp [huser]
      exact absurd there (not_in_user isUser (by decide))
  · right
    have hrest : ('/' :: '/' :: user) ++ '@' :: rest =
        m ++ ':' :: '/' :: '/' :: (user' ++ '@' :: after) := hrest
    rcases cut hrest with ⟨-, no, -⟩ | ⟨k, hm, hafter⟩ | ⟨k, huser, hslash⟩
    · exact absurd no (by decide)
    · have whole : (scheme ++ ':' :: '/' :: '/' :: user) ++ '@' :: k = before ++ scheme' := by
        rw [hbefore, hm]
        simp
      obtain ⟨l, hk, hbefore⟩ := scheme_after url.isScheme whole
      exact ⟨l, ⟨url.isScheme, url.isUser, by rw [hafter, hk]⟩, by simp [hbefore]⟩
    · -- the colon would stand before a slash inside the user
      cases k with
      | nil =>
        injection hslash with no
        exact absurd no (by decide)
      | cons c k =>
        injection hslash with first
        subst first
        have slash : '/' ∉ user := not_in_user isUser (by decide)
        rcases m with _ | ⟨_, _ | ⟨_, m⟩⟩
        · injection huser with no
          exact absurd no (by decide)
        · injection huser with _ huser
          injection huser with no
          exact absurd no (by decide)
        · injection huser with _ huser
          injection huser with _ huser
          exact absurd (by simp [huser]) slash
  · have there : ':' ∈ scheme := by simp [hscheme]
    exact absurd there (not_in_scheme isScheme (by decide))

section AtStart

variable {scheme user rest : List Char}

private theorem UrlAt.prepend {before scheme' user' after : List Char} (front : List Char)
    (url : UrlAt rest before scheme' user' after) :
    UrlAt (front ++ rest) (front ++ before) scheme' user' after :=
  ⟨url.isScheme, url.isUser, by rw [url.text]; simp⟩

/-- What a text that begins with a URL exposes: this URL's credentials, or later ones. -/
theorem exposes_url (isScheme : IsScheme scheme) (isUser : IsUserinfo user) :
    Exposes (scheme ++ ':' :: '/' :: '/' :: (user ++ '@' :: rest)) ↔
      user ≠ redactedText.toList ∨ Exposes rest := by
  constructor
  · rintro ⟨before, scheme', user', after, url, open'⟩
    rcases first_or_later isScheme isUser url with ⟨-, rfl⟩ | ⟨k, url, -⟩
    · exact .inl open'
    · exact .inr ⟨k, scheme', user', after, url, open'⟩
  · rintro (visible | ⟨before, scheme', user', after, url, open'⟩)
    · exact ⟨[], scheme, user, rest, ⟨isScheme, isUser, rfl⟩, visible⟩
    · have later := url.prepend (scheme ++ ':' :: '/' :: '/' :: (user ++ ['@']))
      exact ⟨_, scheme', user', after, by simpa using later, open'⟩

theorem exposesLater_url (isScheme : IsScheme scheme) (isUser : IsUserinfo user) :
    ExposesLater (scheme ++ ':' :: '/' :: '/' :: (user ++ '@' :: rest)) ↔ Exposes rest := by
  constructor
  · rintro ⟨before, scheme', user', after, url, open', later⟩
    rcases first_or_later isScheme isUser url with ⟨same, -⟩ | ⟨k, url, -⟩
    · exact absurd (same ▸ isScheme) later
    · exact ⟨k, scheme', user', after, url, open'⟩
  · rintro ⟨before, scheme', user', after, url, open'⟩
    have later := url.prepend (scheme ++ ':' :: '/' :: '/' :: (user ++ ['@']))
    refine ⟨_, scheme', user', after, by simpa using later, open', fun isScheme' => ?_⟩
    have colon : ':' ∉ scheme ++ ':' :: '/' :: '/' :: (user ++ '@' :: before) ++ scheme' :=
      not_in_scheme isScheme' (by decide)
    exact colon (by simp)

end AtStart

/-! ### The two patterns -/

private theorem afterUserinfo?_url {user : List Char} (isUser : IsUserinfo user)
    (rest : List Char) : afterUserinfo? ('/' :: '/' :: (user ++ '@' :: rest)) = some rest := by
  have stops : isUserinfoChar '@' = false := by decide
  have taken : (user ++ '@' :: rest).takeWhile isUserinfoChar = user := by
    rw [List.takeWhile_append_of_pos isUser.2, List.takeWhile_cons_of_neg (by simp [stops]),
      List.append_nil]
  have remains : (user ++ '@' :: rest).dropWhile isUserinfoChar = '@' :: rest := by
    rw [List.dropWhile_append_of_pos isUser.2, List.dropWhile_cons_of_neg (by simp [stops])]
  have slashes : ['/', '/'] <+: '/' :: '/' :: (user ++ '@' :: rest) := List.prefix_append _ _
  rw [afterUserinfo?, if_pos slashes]
  simp only [List.drop_succ_cons, List.drop_zero, taken, remains]
  rw [if_pos ⟨isUser.1, rfl⟩, List.tail_cons]

private theorem afterUserinfo?_eq_some {s rest : List Char} (found : afterUserinfo? s = some rest) :
    ∃ user, IsUserinfo user ∧ s = '/' :: '/' :: (user ++ '@' :: rest) := by
  unfold afterUserinfo? at found
  split at found
  · next slashes =>
    obtain ⟨authority, rfl⟩ := slashes
    have dropped : List.drop 2 (['/', '/'] ++ authority) = authority := rfl
    rw [dropped] at found
    dsimp only at found
    split at found
    · next ends =>
      injection found with found
      refine ⟨authority.takeWhile isUserinfoChar,
        ⟨ends.1, fun c hc => List.mem_takeWhile_imp hc⟩, ?_⟩
      have tail : authority.dropWhile isUserinfoChar = '@' :: rest := by
        rw [← found]
        exact List.eq_cons_of_mem_head? ends.2
      have whole := List.takeWhile_append_dropWhile (p := isUserinfoChar) (l := authority)
      rw [tail] at whole
      simp [whole]
    · cases found
  · cases found

theorem isCredentialedUrl_iff {s : List Char} :
    isCredentialedUrl s = true ↔ ∃ scheme user rest, IsScheme scheme ∧ IsUserinfo user ∧
      s = scheme ++ ':' :: '/' :: '/' :: (user ++ '@' :: rest) := by
  constructor
  · intro found
    cases s with
    | nil => cases found
    | cons c s =>
      simp only [isCredentialedUrl, Bool.and_eq_true, decide_eq_true_eq] at found
      obtain ⟨⟨alpha, colon⟩, authority⟩ := found
      obtain ⟨rest, authority⟩ := Option.isSome_iff_exists.mp authority
      obtain ⟨user, isUser, slashes⟩ := afterUserinfo?_eq_some authority
      refine ⟨c :: s.takeWhile isSchemeChar, user, rest,
        ⟨alpha, fun d hd => List.mem_takeWhile_imp hd⟩, isUser, ?_⟩
      have tail := List.eq_cons_of_mem_head? colon
      rw [slashes] at tail
      have whole := List.takeWhile_append_dropWhile (p := isSchemeChar) (l := s)
      rw [tail] at whole
      rw [List.cons_append, whole]
  · rintro ⟨scheme, user, rest, isScheme, isUser, rfl⟩
    cases scheme with
    | nil => exact isScheme.elim
    | cons c scheme =>
      have colon : isSchemeChar ':' = false := by decide
      have left' : (scheme ++ ':' :: '/' :: '/' :: (user ++ '@' :: rest)).dropWhile isSchemeChar =
          ':' :: '/' :: '/' :: (user ++ '@' :: rest) := by
        rw [List.dropWhile_append_of_pos isScheme.2, List.dropWhile_cons_of_neg (by simp [colon])]
      rw [List.cons_append, isCredentialedUrl, left']
      simp [isScheme.1, afterUserinfo?_url isUser rest]

private theorem replaceUserinfo_front {front user rest : List Char} (isUser : IsUserinfo user)
    (noSlash : '/' ∉ front) :
    replaceUserinfo (front ++ '/' :: '/' :: (user ++ '@' :: rest)) =
      front ++ '/' :: '/' :: (redactedText.toList ++ '@' :: rest) := by
  induction front with
  | nil =>
    rw [List.nil_append, replaceUserinfo, afterUserinfo?_url isUser rest]
    rfl
  | cons c front ih =>
    rw [List.mem_cons, not_or] at noSlash
    have none' : afterUserinfo? (c :: front ++ '/' :: '/' :: (user ++ '@' :: rest)) = none := by
      rw [Option.eq_none_iff_forall_ne_some]
      intro after found
      obtain ⟨_, -, slashes⟩ := afterUserinfo?_eq_some found
      injection slashes with first
      exact noSlash.1 first.symm
    rw [List.cons_append] at none' ⊢
    rw [replaceUserinfo, none']
    dsimp only
    rw [ih noSlash.2, List.cons_append]

/-- The redaction removes one URL's credentials, and only those of a URL that the text begins
with. -/
theorem exposes_redacted {s : String} :
    Exposes (redactCredentialedUrl s).toList ↔ ExposesLater s.toList := by
  unfold redactCredentialedUrl
  split
  · next credentialed =>
    obtain ⟨scheme, user, rest, isScheme, isUser, text⟩ := isCredentialedUrl_iff.mp credentialed
    have noSlash : '/' ∉ scheme ++ [':'] := by
      rw [List.mem_append]
      rintro (there | there)
      · exact not_in_scheme isScheme (by decide) there
      · simp at there
    have replaced := @replaceUserinfo_front (scheme ++ [':']) user rest isUser noSlash
    simp only [List.append_assoc, List.singleton_append] at replaced
    have redacted : IsUserinfo redactedText.toList := by
      constructor
      · decide
      · simp [redactedText, isUserinfoChar, isWhitespace]
    rw [String.toList_ofList, text, replaced, exposes_url isScheme redacted,
      exposesLater_url isScheme isUser]
    simp
  · next credentialed =>
    constructor
    · rintro ⟨before, scheme, user, after, url, visible⟩
      refine ⟨before, scheme, user, after, url, visible, fun isScheme => credentialed ?_⟩
      exact isCredentialedUrl_iff.mpr ⟨before ++ scheme, user, after, isScheme, url.isUser, url.text⟩
    · rintro ⟨before, scheme, user, after, url, visible, -⟩
      exact ⟨before, scheme, user, after, url, visible⟩

/-! ### The strings of a call -/

namespace StructuredLoggerService

open Value (Reading collect collectItems collectEntries showing copying)

/-- What the redaction of strings sees of the message; of an `Error` it sees the stack too. -/
def messageShown : Value Nat → List Primitive
  | .error _ message stack => .string message :: stack.toList.map .string
  | message => message.shown

def messageCopied : Value Nat → List Primitive
  | .error _ _ _ => []
  | message => message.copied

variable (logger : StructuredLoggerService) (now : String)
  (requestContext : Option RequestContextData) (level : LogLevel)

/-- What the redaction of strings sees of a call. -/
def shown (message : Value Nat) (args : List (Value Nat)) : List Primitive :=
  [.string now, .string level.text, .string logger.serviceName, .string logger.environment] ++
    requestContext.toList.flatMap (fun c => [.string c.requestId, .string c.correlationId]) ++
    messageShown message ++ args.flatMap Value.shown

/-- What reaches the entry of a call as it is. -/
def copied (message : Value Nat) (args : List (Value Nat)) : List Primitive :=
  messageCopied message ++ args.flatMap Value.copied

section Fields

variable {D : Primitive → Prop} {r : Reading Nat Primitive}

private theorem forall_collapseMeta (undefined : ∀ p ∈ r.primitive .undefined, D p)
    (args : List (Value Nat)) :
    (∀ p ∈ collect r (collapseMeta args), D p) ↔ ∀ u ∈ args, ∀ p ∈ collect r u, D p := by
  match args with
  | [] => simpa [collapseMeta, collect] using undefined
  | [only] => simp [collapseMeta]
  | first :: second :: rest =>
    have whole : collect r (collapseMeta (first :: second :: rest)) =
        (first :: second :: rest).flatMap (collect r) := by
      have array : collapseMeta (first :: second :: rest) = .array (first :: second :: rest) := rfl
      rw [array, collect, Value.collectItems_eq]
    rw [whole]
    simp only [List.mem_flatMap]
    grind

private theorem collect_text (r : Reading Nat Primitive) (s : String) :
    collect r (text? (some s)) = r.primitive (.string s) := rfl

private theorem forall_parseArgs (undefined : ∀ p ∈ r.primitive .undefined, D p)
    (args : List (Value Nat)) :
    ((∀ p ∈ collect r (text? (parseArgs args).1), D p) ∧
      ∀ p ∈ collect r (parseArgs args).2, D p) ↔ ∀ u ∈ args, ∀ p ∈ collect r u, D p := by
  unfold parseArgs
  split
  · next last ends =>
    obtain ⟨init, rfl⟩ := List.getLast?_eq_some_iff.mp ends
    rw [List.dropLast_concat, forall_collapseMeta undefined]
    simp only [List.mem_append, List.mem_singleton, text?, Option.elim]
    grind
  · rw [forall_collapseMeta undefined]
    simp only [text?, Option.elim, collect]
    grind

private theorem forall_metaFields (enters : r.enters = Value.shows)
    (undefined : ∀ p ∈ r.primitive .undefined, D p) (value : Value Nat) :
    (∀ p ∈ collectEntries r (metaFields value), D p) ↔ ∀ p ∈ collect r value, D p := by
  have shows : Value.shows "meta" = true := by decide
  unfold metaFields
  split
  · simpa [collectEntries, collect] using undefined
  · simp [collectEntries, enters, shows]

private theorem forall_fields (enters : r.enters = Value.shows)
    (undefined : ∀ p ∈ r.primitive .undefined, D p) (message : Value Nat)
    (args : List (Value Nat)) :
    (∀ p ∈ collectEntries r (logger.fields now requestContext level message args), D p) ↔
      (∀ s ∈ [now, level.text, logger.serviceName, logger.environment] ++
        requestContext.toList.flatMap (fun c => [c.requestId, c.correlationId]),
        ∀ p ∈ r.primitive (.string s), D p) ∧
      (∀ p ∈ collectEntries r (messageFields message), D p) ∧
        ∀ u ∈ args, ∀ p ∈ collect r u, D p := by
  have shows : ∀ key ∈ ["timestamp", "level", "service", "environment", "context", "requestId",
      "correlationId"], Value.shows key = true := by decide
  simp only [List.forall_mem_cons] at shows
  obtain ⟨timestamp, level', service, environment, context, requestId, correlationId, -⟩ := shows
  have parsed := forall_parseArgs undefined args
  rw [← forall_metaFields enters undefined (parseArgs args).2] at parsed
  rw [← parsed, fields, Value.collectEntries_eq, List.filter_append, List.filter_append,
    List.flatMap_append, List.flatMap_append, ← Value.collectEntries_eq, ← Value.collectEntries_eq,
    ← Value.collectEntries_eq]
  simp only [collectEntries, enters, timestamp, level', service, environment, context, requestId,
    correlationId, if_true, List.mem_append, or_imp, forall_and]
  cases requestContext with
  | none =>
    have absent : collect r (text? (none.map RequestContextData.requestId)) =
        r.primitive .undefined := rfl
    have absent' : collect r (text? (none.map RequestContextData.correlationId)) =
        r.primitive .undefined := rfl
    simp only [absent, absent', collect_text]
    simp
    tauto
  | some ids =>
    simp only [Option.map_some, collect_text]
    simp
    tauto

end Fields

/-- What can be said of all primitives of an entry, from the values of the call. -/
theorem forall_entry_iff {C : Primitive → Prop} (undefined : C .undefined)
    (redacted : C (.string redactedText)) {message : Value Nat} {args : List (Value Nat)}
    (forest : Value.Forest (message :: args)) :
    (∀ p ∈ (logger.entry now requestContext level message args).primitives, C p) ↔
      (∀ p ∈ logger.shown now requestContext level message args, C (redactPrimitive p)) ∧
        ∀ p ∈ copied message args, C p := by
  have shows : Value.shows "message" = true ∧ Value.shows "stack" = true := by decide
  rw [logger.entry_tree now requestContext level forest, Redacted.primitives,
    forall_entries_iff redacted fun e _ => forall_primitives_iff undefined redacted e.2,
    logger.forall_fields now requestContext level rfl (by simpa [showing, redactPrimitive]),
    logger.forall_fields now requestContext level rfl (by simp [copying])]
  have messages : (∀ p ∈ collectEntries showing (messageFields message), C (redactPrimitive p)) ↔
      ∀ p ∈ messageShown message, C (redactPrimitive p) := by
    cases message with
    | error name text stack =>
      cases stack <;> simp [messageFields, messageShown, collectEntries, collect, text?, showing,
        shows, redactPrimitive, undefined]
    | _ => simp [messageFields, messageShown, Value.shown, collectEntries, showing, shows]
  have messages' : (∀ p ∈ collectEntries copying (messageFields message), C p) ↔
      ∀ p ∈ messageCopied message, C p := by
    cases message with
    | error name text stack => simp [messageFields, messageCopied, collectEntries, collect, text?,
        copying, shows]
    | _ => simp [messageFields, messageCopied, Value.copied, collectEntries, copying, shows]
  rw [messages, messages']
  cases requestContext <;>
    simp [shown, copied, Value.shown, Value.copied, showing, copying, or_imp, forall_and,
      and_assoc] <;> tauto

private theorem copied_strings {message : Value Nat} {args : List (Value Nat)} :
    ∀ p ∈ copied message args, ∃ s, p = .string s := by
  have strings : ∀ v : Value Nat, ∀ p ∈ v.copied, ∃ s, p = .string s := by
    intro v
    apply Value.forall_collect
    · nofun
    · intro name message stack p hp
      rcases List.mem_cons.mp hp with rfl | hp
      · exact ⟨name, rfl⟩
      · obtain ⟨s, -, rfl⟩ := List.mem_map.mp hp
        exact ⟨s, rfl⟩
    · nofun
  intro p hp
  rcases List.mem_append.mp hp with hp | hp
  · cases message with
    | error name text stack => cases hp
    | _ => exact strings _ p hp
  · obtain ⟨v, -, hp⟩ := List.mem_flatMap.mp hp
    exact strings v p hp

/-- A line is written unless the redaction sees a BigInt. -/
private theorem writes_iff {message : Value Nat} {args : List (Value Nat)}
    (enabled : logger.isEnabled level = true) (forest : Value.Forest (message :: args)) :
    (∃ line, logger.write now requestContext level message args = .ok (some line)) ↔
      ∀ n, .bigint n ∉ logger.shown now requestContext level message args := by
  have written : (∃ line, logger.write now requestContext level message args = .ok (some line)) ↔
      ∃ text, stringify (logger.entry now requestContext level message args) = .ok text := by
    unfold write
    rw [enabled]
    cases stringify (logger.entry now requestContext level message args) <;>
      simp [bind, Except.bind, pure, Except.pure]
  have entry := @forall_entry_iff logger now requestContext level (fun p => ∀ n, p ≠ .bigint n)
    nofun nofun message args forest
  have strings : ∀ p ∈ copied message args, ∀ n, p ≠ .bigint n := by
    intro p hp n same
    obtain ⟨s, string⟩ := copied_strings p hp
    rw [string] at same
    cases same
  rw [written, stringify_ok]
  constructor
  · intro none' n there
    exact (entry.mp fun p hp n same => none' n (same ▸ hp)).1 _ there n rfl
  · intro none' n there
    refine entry.mpr ⟨fun p hp n same => ?_, strings⟩ _ there n rfl
    cases p with
    | bigint m => exact none' m hp
    | _ => cases same

private theorem placeholder_hidden : ¬Exposes redactedText.toList := by
  rintro ⟨before, scheme, user, after, url, -⟩
  have colon : ':' ∈ redactedText.toList := by
    rw [url.text]
    simp
  exact absurd colon (by decide)

/-- The line of a call holds no credentialed URL, neither in a string of its own nor inside
one. -/
def NoCredentials (message : Value Nat) (args : List (Value Nat)) : Prop :=
  ∀ line, logger.write now requestContext level message args = .ok (some line) →
    ∀ s, .string s ∈ (logger.entry now requestContext level message args).primitives →
      ¬Exposes s.toList

/-- No line shows credentials just when no line is written, or each string that the redaction
sees has its only credentialed URL at its beginning, and no name or stack of an error among the
arguments has one. -/
theorem noCredentials_iff {message : Value Nat} {args : List (Value Nat)}
    (enabled : logger.isEnabled level = true) (forest : Value.Forest (message :: args)) :
    logger.NoCredentials now requestContext level message args ↔
      (∃ n, .bigint n ∈ logger.shown now requestContext level message args) ∨
        (∀ s, .string s ∈ logger.shown now requestContext level message args →
          ¬ExposesLater s.toList) ∧ ∀ s, .string s ∈ copied message args → ¬Exposes s.toList := by
  by_cases throws : ∃ n, .bigint n ∈ logger.shown now requestContext level message args
  · refine iff_of_true (fun line written => ?_) (.inl throws)
    obtain ⟨n, there⟩ := throws
    have quiet := (logger.writes_iff now requestContext level enabled forest).mp ⟨line, written⟩
    exact absurd there (quiet n)
  · obtain ⟨line, written⟩ := (logger.writes_iff now requestContext level enabled forest).mpr
      fun n there => throws ⟨n, there⟩
    have entry := @forall_entry_iff logger now requestContext level
      (fun p => ∀ s, p = .string s → ¬Exposes s.toList) nofun
      (fun s same => by cases same; exact placeholder_hidden) message args forest
    constructor
    · intro hidden
      have all := entry.mp fun p hp s same => hidden line written s (same ▸ hp)
      refine .inr ⟨fun s there => ?_, fun s there => all.2 _ there s rfl⟩
      rw [← exposes_redacted]
      exact all.1 _ there _ rfl
    · rintro (throws' | ⟨seen, raw⟩)
      · exact absurd throws' throws
      · intro _ _ s there
        refine entry.mpr ⟨fun p hp t same => ?_, fun p hp t same => raw t (same ▸ hp)⟩ _ there s rfl
        cases p with
        | string u =>
          cases same
          rw [exposes_redacted]
          exact seen u hp
        | _ => cases same

private def unreachable : Value Nat :=
  .primitive (.string "cannot connect to postgres://user:pw@db.internal/app")

theorem noCredentials_iff_unreachable :
    (new "guitar-coach-api" "test" none).NoCredentials "" none .log unreachable [] ↔
      (∃ n, .bigint n ∈ (new "guitar-coach-api" "test" none).shown "" none .log unreachable []) ∨
        (∀ s, .string s ∈ (new "guitar-coach-api" "test" none).shown "" none .log unreachable [] →
          ¬ExposesLater s.toList) ∧
        ∀ s, .string s ∈ copied unreachable [] → ¬Exposes s.toList :=
  noCredentials_iff _ _ _ _ (by decide) (by unfold Value.Forest; decide)

/-- A URL inside a sentence is logged with its credentials. -/
theorem credentials_logged :
    ¬∀ (logger : StructuredLoggerService) now requestContext level message args,
      logger.isEnabled level = true → Value.Forest (message :: args) →
        logger.NoCredentials now requestContext level message args := by
  intro claim
  have forest : Value.Forest [unreachable] := by
    unfold Value.Forest
    decide
  have quiet : ∀ n, .bigint n ∉
      (new "guitar-coach-api" "test" none).shown "" none .log unreachable [] := by
    intro n
    simp [shown, messageShown, unreachable, Value.shown, collect, showing]
  obtain ⟨line, written⟩ := ((new "guitar-coach-api" "test" none).writes_iff "" none .log
    (by decide) forest).mpr quiet
  have there : .string "cannot connect to postgres://user:pw@db.internal/app" ∈
      ((new "guitar-coach-api" "test" none).entry "" none .log unreachable []).primitives := by
    decide +kernel
  refine claim (new "guitar-coach-api" "test" none) "" none .log unreachable [] (by decide) forest
    line written _ there ?_
  refine ⟨"cannot connect to ".toList, "postgres".toList, "user:pw".toList,
    "db.internal/app".toList, ⟨?_, ?_, by decide⟩, by decide⟩
  · show IsScheme ('p' :: "ostgres".toList)
    exact ⟨by decide, by simp [isSchemeChar, Char.isAlphanum]⟩
  · constructor
    · decide
    · simp [isUserinfoChar, isWhitespace]

end StructuredLoggerService

end GuitarCoach

