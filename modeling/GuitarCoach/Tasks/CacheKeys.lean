/- digest: The texts of the cache keys, and which keys they keep apart. -/

import GuitarCoach.Ecma.Numbers
import GuitarCoach.Tasks.TasksService

set_option autoImplicit false
set_option relaxedAutoImplicit false

namespace GuitarCoach

open Ecma (IsCode IsNumber mem_numberToString numberToString numberToString_injective segment_cancel)

/-! ### `encodeURIComponent` -/

section Encode

/-- The characters that are not encoded. -/
def isUnreserved (c : Char) : Bool := c.isAlphanum ∨ c ∈ "-_.!~*'()".toList

/-- The code of a byte: the character that it is, or a percent sign and two digits. -/
private def byteCode (b : UInt8) : List Char :=
  if isUnreserved (Char.ofNat b.toNat) then [Char.ofNat b.toNat]
  else ['%', hexDigit (b.toNat / 16), hexDigit (b.toNat % 16)]

private theorem hexDigit_injective {m n : Nat} (hm : m < 16) (hn : n < 16)
    (same : hexDigit m = hexDigit n) : m = n := by
  have all : ∀ m < 16, ∀ n < 16, hexDigit m = hexDigit n → m = n := by decide
  exact all m hm n hn same

private theorem toNat_ofNat_byte (b : UInt8) : (Char.ofNat b.toNat).toNat = b.toNat := by
  have small := b.toNat_lt
  have valid : b.toNat.isValidChar := .inl (by omega)
  rw [Char.ofNat, dif_pos valid]
  rfl

private theorem percent_reserved : isUnreserved '%' = false := by decide

private theorem byteCode_isCode : IsCode byteCode where
  ne_nil b := by
    unfold byteCode
    split <;> exact List.cons_ne_nil _ _
  cancel {a b r r'} same := by
    unfold byteCode at same
    split at same <;> split at same
    · obtain ⟨first, rest⟩ := List.cons.inj same
      have code := congrArg Char.toNat first
      rw [toNat_ofNat_byte, toNat_ofNat_byte] at code
      exact ⟨UInt8.toNat_inj.mp code, rest⟩
    · next plain _ =>
      obtain ⟨first, -⟩ := List.cons.inj same
      rw [first, percent_reserved] at plain
      cases plain
    · next _ plain =>
      obtain ⟨first, -⟩ := List.cons.inj same
      rw [← first, percent_reserved] at plain
      cases plain
    · obtain ⟨-, same⟩ := List.cons.inj same
      obtain ⟨high, same⟩ := List.cons.inj same
      obtain ⟨low, rest⟩ := List.cons.inj same
      have smallA := a.toNat_lt
      have smallB := b.toNat_lt
      have high := hexDigit_injective (by omega) (by omega) high
      have low := hexDigit_injective (by omega) (by omega) low
      exact ⟨UInt8.toNat_inj.mp (by omega), rest⟩

/-- An unreserved character is one byte. -/
private theorem lt_of_unreserved {c : Char} (plain : isUnreserved c = true) : c.toNat < 128 := by
  rcases of_decide_eq_true plain with alphanum | mark
  · simp only [Char.isAlphanum, Char.isAlpha, Char.isUpper, Char.isLower, Char.isDigit,
      Bool.or_eq_true, Bool.and_eq_true, decide_eq_true_eq, ge_iff_le, UInt32.le_iff_toNat_le]
      at alphanum
    have value : c.toNat = c.val.toNat := rfl
    have upper : 'Z'.val.toNat = 90 := rfl
    have lower : 'z'.val.toNat = 122 := rfl
    have digit : '9'.val.toNat = 57 := rfl
    omega
  · have marks : "-_.!~*'()".toList = ['-', '_', '.', '!', '~', '*', .ofNat 39, '(', ')'] := rfl
    rw [marks] at mark
    simp only [List.mem_cons, List.not_mem_nil, or_false] at mark
    rcases mark with rfl | rfl | rfl | rfl | rfl | rfl | rfl | rfl | rfl <;> decide

private theorem byteCode_high {b : UInt8} (high : 128 ≤ b.toNat) :
    byteCode b = ['%', hexDigit (b.toNat / 16), hexDigit (b.toNat % 16)] := by
  refine if_neg fun plain => ?_
  have low := lt_of_unreserved plain
  rw [toNat_ofNat_byte] at low
  omega

/-- The bytes of a character that is more than one byte. -/
private theorem high_of_mem {c : Char} (large : 128 ≤ c.toNat) {b : UInt8}
    (hb : b ∈ String.utf8EncodeChar c) : 128 ≤ b.toNat := by
  have value : c.toNat = c.val.toNat := rfl
  unfold String.utf8EncodeChar at hb
  dsimp only at hb
  rw [if_neg (by omega)] at hb
  split at hb
  · simp only [List.mem_cons, List.not_mem_nil, or_false] at hb
    rcases hb with rfl | rfl <;> rw [UInt8.toNat_ofNat'] <;> omega
  · split at hb
    · simp only [List.mem_cons, List.not_mem_nil, or_false] at hb
      rcases hb with rfl | rfl | rfl <;> rw [UInt8.toNat_ofNat'] <;> omega
    · simp only [List.mem_cons, List.not_mem_nil, or_false] at hb
      rcases hb with rfl | rfl | rfl | rfl <;> rw [UInt8.toNat_ofNat'] <;> omega

private theorem charCode_eq (c : Char) : (if isUnreserved c then [c]
      else (String.utf8EncodeChar c).flatMap fun b =>
        ['%', hexDigit (b.toNat / 16), hexDigit (b.toNat % 16)]) =
    (String.utf8EncodeChar c).flatMap byteCode := by
  by_cases small : c.toNat < 128
  · have value : c.toNat = c.val.toNat := rfl
    have bytes : String.utf8EncodeChar c = [UInt8.ofNat c.toNat] := by
      unfold String.utf8EncodeChar
      dsimp only
      rw [if_pos (by omega)]
      rfl
    have back : Char.ofNat (UInt8.ofNat c.toNat).toNat = c := by
      rw [UInt8.toNat_ofNat', Nat.mod_eq_of_lt (by omega)]
      exact Char.ofNat_toNat c
    rw [bytes, List.flatMap_singleton, List.flatMap_singleton, byteCode, back]
  · have reserved : isUnreserved c = false :=
      Bool.eq_false_iff.mpr fun plain => small (lt_of_unreserved plain)
    rw [reserved, if_neg (by decide)]
    refine List.flatMap_congr fun b hb => ?_
    exact (byteCode_high (high_of_mem (by omega) hb)).symm

/-- Different texts are encoded differently. -/
theorem encodeURIComponent_injective {s t : String}
    (same : encodeURIComponent s = encodeURIComponent t) : s = t := by
  have bytes : ∀ s, (encodeURIComponent s).toList =
      (s.toList.flatMap String.utf8EncodeChar).flatMap byteCode := by
    intro s
    rw [List.flatMap_assoc]
    unfold encodeURIComponent
    rw [String.toList_ofList]
    refine List.flatMap_congr fun c _ => ?_
    rw [← charCode_eq]
    simp only [isUnreserved, decide_eq_true_eq]
  have encoded : s.toList.flatMap String.utf8EncodeChar =
      t.toList.flatMap String.utf8EncodeChar := by
    apply byteCode_isCode.flatMap_injective
    rw [← bytes, ← bytes, same]
  have utf8 : s.toList.utf8Encode = t.toList.utf8Encode := congrArg List.toByteArray encoded
  rw [String.utf8Encode_toList, String.utf8Encode_toList] at utf8
  exact String.toByteArray_inj.mp utf8

end Encode

/-! ### The keys -/

/-- The key as it is sent to the cache. -/
def CacheKey.text : CacheKey → String
  | .task id => "tasks:" ++ id
  | .taskListVersion => "tasks:list:version"
  | .taskList version page limit category difficulty search =>
    "tasks:list:v" ++ numberToString version ++ ":" ++ numberToString page ++ ":" ++
      numberToString limit ++ ":" ++ category.elim "" TaskCategory.text ++ ":" ++
      difficulty.elim "" TaskDifficulty.text ++ ":" ++ search
  | .planOwner previousResponseId => "ai-practice-planner:" ++ previousResponseId

@[simp] theorem CacheKey.text_task (id : String) : (CacheKey.task id).text = "tasks:" ++ id := rfl

section Keys

variable {version version' page page' limit limit' : Nat} {category category' : Option TaskCategory}
  {difficulty difficulty' : Option TaskDifficulty} {search search' : String}

/-- What follows the prefix of a list key. -/
private theorem list_text : (CacheKey.taskList version page limit category difficulty search).text.toList =
    "tasks:list:v".toList ++ ((numberToString version).toList ++ ':' ::
      ((numberToString page).toList ++ ':' :: ((numberToString limit).toList ++ ':' ::
        ((category.elim "" TaskCategory.text).toList ++ ':' ::
          ((difficulty.elim "" TaskDifficulty.text).toList ++ ':' :: search.toList))))) := by
  have colon : ":".toList = [':'] := rfl
  have text : (CacheKey.taskList version page limit category difficulty search).text =
    "tasks:list:v" ++ numberToString version ++ ":" ++ numberToString page ++ ":" ++
      numberToString limit ++ ":" ++ category.elim "" TaskCategory.text ++ ":" ++
      difficulty.elim "" TaskDifficulty.text ++ ":" ++ search := rfl
  rw [text]
  simp only [String.toList_append, colon, List.append_assoc, List.cons_append,
    List.nil_append]

private theorem number_free (x : Nat) : ':' ∉ (numberToString x).toList := by
  intro there
  rcases mem_numberToString there with digit | point | exponent | sign
  · exact absurd digit (by decide)
  · exact absurd point (by decide)
  · exact absurd exponent (by decide)
  · exact absurd sign (by decide)

private theorem category_free (category : Option TaskCategory) :
    ':' ∉ (category.elim "" TaskCategory.text).toList := by
  rcases category with - | category
  · decide
  · cases category <;> decide

private theorem difficulty_free (difficulty : Option TaskDifficulty) :
    ':' ∉ (difficulty.elim "" TaskDifficulty.text).toList := by
  rcases difficulty with - | difficulty
  · decide
  · cases difficulty <;> decide

private theorem category_injective
    (same : (category.elim "" TaskCategory.text).toList =
      (category'.elim "" TaskCategory.text).toList) : category = category' := by
  rcases category with - | category <;> rcases category' with - | category'
  · rfl
  · cases category' <;> exact absurd same (by decide)
  · cases category <;> exact absurd same (by decide)
  · cases category <;> cases category' <;> first | rfl | exact absurd same (by decide)

private theorem difficulty_injective
    (same : (difficulty.elim "" TaskDifficulty.text).toList =
      (difficulty'.elim "" TaskDifficulty.text).toList) : difficulty = difficulty' := by
  rcases difficulty with - | difficulty <;> rcases difficulty' with - | difficulty'
  · rfl
  · cases difficulty' <;> exact absurd same (by decide)
  · cases difficulty <;> exact absurd same (by decide)
  · cases difficulty <;> cases difficulty' <;> first | rfl | exact absurd same (by decide)

/-- The text of a list key tells its segments. -/
theorem list_text_injective (versions : IsNumber version ∧ IsNumber version')
    (pages : IsNumber page ∧ IsNumber page') (limits : IsNumber limit ∧ IsNumber limit')
    (same : (CacheKey.taskList version page limit category difficulty search).text =
      (CacheKey.taskList version' page' limit' category' difficulty' search').text) :
    version = version' ∧ page = page' ∧ limit = limit' ∧ category = category' ∧
      difficulty = difficulty' ∧ search = search' := by
  have texts := congrArg String.toList same
  rw [list_text, list_text] at texts
  have texts := List.append_cancel_left texts
  obtain ⟨hversion, texts⟩ := segment_cancel (number_free _) (number_free _) texts
  obtain ⟨hpage, texts⟩ := segment_cancel (number_free _) (number_free _) texts
  obtain ⟨hlimit, texts⟩ := segment_cancel (number_free _) (number_free _) texts
  obtain ⟨hcategory, texts⟩ := segment_cancel (category_free _) (category_free _) texts
  obtain ⟨hdifficulty, texts⟩ := segment_cancel (difficulty_free _) (difficulty_free _) texts
  exact ⟨numberToString_injective versions.1 versions.2 (String.toList_injective hversion),
    numberToString_injective pages.1 pages.2 (String.toList_injective hpage),
    numberToString_injective limits.1 limits.2 (String.toList_injective hlimit),
    category_injective hcategory, difficulty_injective hdifficulty, String.toList_injective texts⟩

/-- A list key is not the key of the version. -/
theorem list_ne_version : (CacheKey.taskList version page limit category difficulty search).text ≠
    CacheKey.taskListVersion.text := by
  intro same
  have texts := congrArg String.toList same
  have split : CacheKey.taskListVersion.text.toList =
      "tasks:list:v".toList ++ "ersion".toList := rfl
  rw [list_text, split] at texts
  have rest := List.append_cancel_left texts
  have colon : ':' ∈ "ersion".toList :=
    rest ▸ List.mem_append_right _ List.mem_cons_self
  exact absurd colon (by decide)

/-- Nor is it the key of a task whose id has no colon, as no UUID has. -/
theorem list_ne_task {id : String} (free : ':' ∉ id.toList) :
    (CacheKey.taskList version page limit category difficulty search).text ≠
      (CacheKey.task id).text := by
  intro same
  have texts := congrArg String.toList same
  have split : "tasks:list:v".toList = "tasks:".toList ++ "list:v".toList := rfl
  rw [list_text, split, CacheKey.text_task, String.toList_append, List.append_assoc] at texts
  have rest := List.append_cancel_left texts
  have colon : ':' ∈ id.toList := rest ▸ List.mem_append_left _ (by decide)
  exact free colon

end Keys

namespace TasksService

/-- What the DTO accepts, as far as the keys depend on it: numbers, and a search that is not
empty. -/
structure Accepted (query : FindTasksQueryDto) : Prop where
  page : ∀ page ∈ query.page, IsNumber page
  search : ∀ q ∈ query.q, q ≠ ""

/-- The key of a query at a version of the lists. -/
def queryKey (letters : Letters) (version : Nat) (query : FindTasksQueryDto) : String :=
  (listCacheKey letters version (query.page.getD defaultPage) (query.limit.getD defaultLimit)
    query).text

/-- Two searches with one encoded segment are both absent, or equal in lower case. -/
private theorem search_injective {letters : Letters}
    (nonempty : ∀ s, s ≠ "" → letters.toLowerCase s ≠ "") {q q' : Option String}
    (some : ∀ s ∈ q, s ≠ "") (some' : ∀ s ∈ q', s ≠ "")
    (same : (q.elim "" fun q => encodeURIComponent (letters.toLowerCase q)) =
      q'.elim "" fun q => encodeURIComponent (letters.toLowerCase q)) :
    q.map letters.toLowerCase = q'.map letters.toLowerCase := by
  have empty : encodeURIComponent "" = "" := rfl
  -- a search that is there leaves a segment that is not empty
  have written : ∀ s, s ≠ "" → encodeURIComponent (letters.toLowerCase s) ≠ "" := by
    intro s hs none
    rw [← empty] at none
    exact nonempty s hs (encodeURIComponent_injective none)
  rcases q with - | s <;> rcases q' with - | s'
  · rfl
  · exact absurd same.symm (written s' (some' s' rfl))
  · exact absurd same (written s (some s rfl))
  · exact congrArg Option.some (encodeURIComponent_injective same)

/-- Two queries of one key are at one version, for one page and limit, one category and
difficulty, and searches that are equal in lower case; and no key of a query is the key of the
version or of a task. `toLowerCase` leaves no text empty that was not. -/
theorem query_keys_separate {letters : Letters}
    (nonempty : ∀ s, s ≠ "" → letters.toLowerCase s ≠ "") {version version' : Nat}
    (versions : IsNumber version ∧ IsNumber version') {query query' : FindTasksQueryDto}
    (accepted : Accepted query) (accepted' : Accepted query') :
    (queryKey letters version query = queryKey letters version' query' →
      version = version' ∧
      query.page.getD defaultPage = query'.page.getD defaultPage ∧
      query.limit.getD defaultLimit = query'.limit.getD defaultLimit ∧
      query.category = query'.category ∧ query.difficulty = query'.difficulty ∧
      query.q.map letters.toLowerCase = query'.q.map letters.toLowerCase) ∧
    queryKey letters version query ≠ CacheKey.taskListVersion.text ∧
    ∀ id : String, ':' ∉ id.toList → queryKey letters version query ≠ (CacheKey.task id).text := by
  refine ⟨fun same => ?_, list_ne_version, fun id free => list_ne_task free⟩
  have limits : ∀ query : FindTasksQueryDto, IsNumber (query.limit.getD defaultLimit) := by
    intro query
    apply Ecma.isNumber_of_lt
    cases hlimit : query.limit with
    | none => decide
    | some limit =>
      have range := query.limitRange limit hlimit
      rw [Option.getD_some]
      omega
  have pages : ∀ {query : FindTasksQueryDto}, Accepted query →
      IsNumber (query.page.getD defaultPage) := by
    intro query accepted
    cases hpage : query.page with
    | none => exact Ecma.isNumber_of_lt (by decide)
    | some page => exact accepted.page page hpage
  obtain ⟨hversion, hpage, hlimit, hcategory, hdifficulty, hsearch⟩ :=
    list_text_injective versions ⟨pages accepted, pages accepted'⟩ ⟨limits query, limits query'⟩ same
  exact ⟨hversion, hpage, hlimit, hcategory, hdifficulty,
    search_injective nonempty accepted.search accepted'.search hsearch⟩

/-- Lower case as far as ASCII goes. -/
private def ascii : Letters := ⟨lowerHex, lowerHex⟩

private theorem ascii_nonempty (s : String) (some : s ≠ "") : ascii.toLowerCase s ≠ "" := by
  intro none
  have chars := congrArg String.toList none
  have lower : (ascii.toLowerCase s).toList = s.toList.map Char.toLower := String.toList_ofList
  rw [lower] at chars
  exact some (String.toList_injective (List.map_eq_nil_iff.mp chars))

private theorem firstPage_min : ∀ p ∈ (none : Option Nat), 1 ≤ p := nofun

/-- A search for a text, on the first page. -/
private def searchFor (q : String) : FindTasksQueryDto :=
  ⟨none, none, none, none, some q, firstPage_min, nofun⟩

private theorem searchFor_accepted {q : String} (some : q ≠ "") : Accepted (searchFor q) where
  page := nofun
  search := by
    rintro s ⟨⟩
    exact some

private def blues : FindTasksQueryDto := searchFor "Blues"

private def bluesAtHalf : FindTasksQueryDto := searchFor "50%: blues"

theorem query_keys_separate_blues :
    (queryKey ascii 0 blues = queryKey ascii 1 bluesAtHalf → 0 = 1 ∧
      blues.page.getD defaultPage = bluesAtHalf.page.getD defaultPage ∧
      blues.limit.getD defaultLimit = bluesAtHalf.limit.getD defaultLimit ∧
      blues.category = bluesAtHalf.category ∧ blues.difficulty = bluesAtHalf.difficulty ∧
      blues.q.map ascii.toLowerCase = bluesAtHalf.q.map ascii.toLowerCase) ∧
    queryKey ascii 0 blues ≠ CacheKey.taskListVersion.text ∧
    ∀ id : String, ':' ∉ id.toList → queryKey ascii 0 blues ≠ (CacheKey.task id).text :=
  query_keys_separate ascii_nonempty
    ⟨Ecma.isNumber_of_lt (by decide), Ecma.isNumber_of_lt (by decide)⟩
    (searchFor_accepted (by decide)) (searchFor_accepted (by decide))

end TasksService

end GuitarCoach
