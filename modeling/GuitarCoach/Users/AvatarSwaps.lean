/- digest: Uploads and removals of one user's photo at the same time: the swap protocol of the image. -/

import GuitarCoach.Async.CallLog
import GuitarCoach.Async.SwapRegister
import GuitarCoach.Users.AvatarSpecs

/-!
Any number of uploads and removals of one user run at once. Each reads the image, and swaps it
later only if it is still the one it has read; names are new, so an image that was replaced does
not come back.
-/

set_option autoImplicit false
set_option relaxedAutoImplicit false

namespace GuitarCoach

open Async (Answer Call Run Safe SwapLog onOk)
open Async.Method (pure_eq throw_eq bind_eq tryCatch_eq)
open Relational (Table)
open AvatarService (objectName)

/-- A call of AvatarService that changes the photo of its user. -/
inductive AvatarRequest
  | upload (file : UploadedFile)
  | remove

def AvatarRequest.run (expiresInSeconds : Nat) (userId : Uuid) : AvatarRequest → Promise Unit
  | upload file => do
    let _ ← AvatarService.upload expiresInSeconds userId file
  | remove => AvatarService.remove userId

/-- `User.image` of the user. -/
def imageOf (userId : Uuid) (w : World) : Option String :=
  (w.db.users.find userId).bind (·.image)

/-- The objects under the avatar prefix of the user. -/
def avatarsOf (userId : Uuid) (w : World) : Set String :=
  {o | o ∈ w.bucket ∧ ownAvatarObject userId.text (some o) = some o}

section Runs

variable {η : Type}

/-- The swaps of the image, as the run shows them. -/
def avatarLog (userId : Uuid) (r : Run World Input Failure Label η Unit) : SwapLog Nat String where
  register t := imageOf userId (r.state t)
  objects t := avatarsOf userId (r.state t)
  puts i n t := ∃ x, r.CallsAt i t (.uploadObject n) x
  swaps i t := ∃ x, r.CallsAt i t (.db .user .updateMany) x
  drops i n t := ∃ x, r.CallsAt i t (.deleteObject n) x

/-- A run of such calls for one user, whose image nothing else writes: only a call of the database
throws, and the names of new objects are new. -/
structure AvatarRun (userId : Uuid) (expiresInSeconds : Nat) (request : Nat → AvatarRequest)
    (r : Run World Input Failure Label η Unit) : Prop where
  requests : ∀ i, r.requests i = (request i).run expiresInSeconds userId
  user : r.start.db.users.has userId = true
  start : ∀ o, o ∈ avatarsOf userId r.start ↔ imageOf userId r.start = some o
  answers : ∀ i t l e, r.CallsAt i t l (.threw e) → ∃ model op, l = .db model op
  fresh : ∀ i t inp file, r.CallsAt i t .randomUUID (.took inp) →
    objectName userId (inp.uuid 0) file ∉ r.start.bucket ∧
      ∀ j u inp' file', r.CallsAt j u .randomUUID (.took inp') →
        objectName userId (inp'.uuid 0) file' = objectName userId (inp.uuid 0) file → u = t
  outside : ∀ t act, r.schedule t = .outside act → (r.state t).db.users.has userId = true →
    (r.outside act (r.state t)).db.users.has userId = true ∧
      imageOf userId (r.outside act (r.state t)) = imageOf userId (r.state t) ∧
      avatarsOf userId (r.outside act (r.state t)) = avatarsOf userId (r.state t)

/-- The protocol of the image: the object it names exists, none is deleted while it is named, a
call that fails deletes only what it has uploaded itself, and once all calls have ended nothing
else is under the prefix. -/
structure AvatarProtocol (userId : Uuid) (r : Run World Input Failure Label η Unit) (t : Nat) :
    Prop where
  named : ∀ n, imageOf userId (r.state t) = some n → n ∈ (r.state t).bucket
  spares : ∀ i n x, r.CallsAt i t (.deleteObject n) x → imageOf userId (r.state t) ≠ some n
  loser : ∀ i e, r.Ended i t (.error e) → ∀ v < t, ∀ n x, r.CallsAt i v (.deleteObject n) x →
    ∃ u < v, ∃ y, r.CallsAt i u (.uploadObject n) y
  settled : (∀ i m, r.slot i t = some m → ∃ result, m.result? = some result) →
    ∀ o, o ∈ avatarsOf userId (r.state t) ↔ imageOf userId (r.state t) = some o

/-! ### The steps of the log -/

section Steps

variable {userId : Uuid} {r : Run World Input Failure Label η Unit} {i t u v : Nat} {n : String}

/-- The name was made of an id that the request has generated. -/
private def Named (userId : Uuid) (r : Run World Input Failure Label η Unit) (i : Nat) (n : String)
    (t : Nat) : Prop :=
  ∃ s < t, ∃ inp file, r.CallsAt i s .randomUUID (.took inp) ∧
    n = objectName userId (inp.uuid 0) file

/-- What one moment may do to the image and the photos. -/
private structure SwapStep (userId : Uuid) (r : Run World Input Failure Label η Unit) (v : Nat) :
    Prop where
  register : imageOf userId (r.state (v + 1)) = imageOf userId (r.state v) ∨
    ∃ i, (avatarLog userId r).swaps i v ∧ ∀ n, imageOf userId (r.state (v + 1)) = some n →
      ∃ u < v, (avatarLog userId r).puts i n u
  objects : ∀ n, n ∈ avatarsOf userId (r.state (v + 1)) ↔
    (n ∈ avatarsOf userId (r.state v) ∧ ∀ i, ¬(avatarLog userId r).drops i n v) ∨
      ∃ i, (avatarLog userId r).puts i n v
  swap : ∀ i, (avatarLog userId r).swaps i v → ∀ w < v, ¬(avatarLog userId r).swaps i w
  put : ∀ i n, (avatarLog userId r).puts i n v → Named userId r i n v ∧
    ∀ w < v, ∀ m, ¬(avatarLog userId r).puts i m w
  drop : ∀ i n, (avatarLog userId r).drops i n v → ∃ w < v,
    (avatarLog userId r).Loses i n w ∨ (avatarLog userId r).Replaces i n w

private structure Kept (userId : Uuid) (r : Run World Input Failure Label η Unit) (t : Nat) :
    Prop where
  user : (r.state t).db.users.has userId = true
  own : ∀ n, imageOf userId (r.state t) = some n → ownAvatarObject userId.text (some n) = some n
  steps : ∀ v < t, SwapStep userId r v

private theorem Kept.next (kept : Kept userId r t)
    (user : (r.state (t + 1)).db.users.has userId = true)
    (own : ∀ n, imageOf userId (r.state (t + 1)) = some n →
      ownAvatarObject userId.text (some n) = some n)
    (step : SwapStep userId r t) : Kept userId r (t + 1) := by
  refine ⟨user, own, fun v hv => ?_⟩
  rcases Nat.lt_or_eq_of_le (Nat.le_of_lt_succ hv) with before | rfl
  · exact kept.steps v before
  · exact step

/-- The calls that the log records. -/
private def isPlain : Label → Bool
  | .uploadObject _ => false
  | .deleteObject _ => false
  | .db .user .updateMany => false
  | _ => true

/-- A moment without a call that the log records. -/
private theorem SwapStep.still (image : imageOf userId (r.state (v + 1)) = imageOf userId (r.state v))
    (objects : avatarsOf userId (r.state (v + 1)) = avatarsOf userId (r.state v))
    (plain : ∀ i l x, r.CallsAt i v l x → isPlain l = true) : SwapStep userId r v where
  register := .inl image
  objects n := by
    have none : ∀ i, ¬(avatarLog userId r).drops i n v := fun i ⟨x, drops⟩ =>
      absurd (plain i _ x drops) Bool.false_ne_true
    have noPut : ∀ i, ¬(avatarLog userId r).puts i n v := fun i ⟨x, puts⟩ =>
      absurd (plain i _ x puts) Bool.false_ne_true
    rw [objects]
    constructor
    · exact fun there => .inl ⟨there, none⟩
    · rintro (⟨there, -⟩ | ⟨i, puts⟩)
      · exact there
      · exact absurd puts (noPut i)
  swap i := fun ⟨x, swaps⟩ => absurd (plain i _ x swaps) Bool.false_ne_true
  put i n := fun ⟨x, puts⟩ => absurd (plain i _ x puts) Bool.false_ne_true
  drop i n := fun ⟨x, drops⟩ => absurd (plain i _ x drops) Bool.false_ne_true

private theorem isPlain_of_call {l : Label} {x : Answer Input Failure} (called : r.CallsAt i v l x)
    (plain : isPlain l = true) : ∀ j l' x', r.CallsAt j v l' x' → isPlain l' = true := by
  intro j l' x' called'
  obtain ⟨-, rfl, -⟩ := called.unique called'
  exact plain

/-- The avatars once an object has come. -/
private theorem avatarsOf_insert {w w' : World} {n o : String} (bucket : w'.bucket = insert n w.bucket)
    (own : ownAvatarObject userId.text (some n) = some n) :
    o ∈ avatarsOf userId w' ↔ o ∈ avatarsOf userId w ∨ o = n := by
  unfold avatarsOf
  rw [Set.mem_ofPred_eq, Set.mem_ofPred_eq, bucket, Finset.mem_insert]
  constructor
  · rintro ⟨rfl | there, avatar⟩
    · exact .inr rfl
    · exact .inl ⟨there, avatar⟩
  · rintro (⟨there, avatar⟩ | rfl)
    · exact ⟨.inr there, avatar⟩
    · exact ⟨.inl rfl, own⟩

private theorem avatarsOf_erase {w w' : World} {n o : String} (bucket : w'.bucket = w.bucket.erase n) :
    o ∈ avatarsOf userId w' ↔ o ∈ avatarsOf userId w ∧ o ≠ n := by
  unfold avatarsOf
  rw [Set.mem_ofPred_eq, Set.mem_ofPred_eq, bucket, Finset.mem_erase]
  tauto

private theorem SwapStep.of_put {x : Answer Input Failure} (called : r.CallsAt i v (.uploadObject n) x)
    (image : imageOf userId (r.state (v + 1)) = imageOf userId (r.state v))
    (bucket : (r.state (v + 1)).bucket = insert n (r.state v).bucket)
    (own : ownAvatarObject userId.text (some n) = some n) (named : Named userId r i n v)
    (first : ∀ w < v, ∀ m, ¬(avatarLog userId r).puts i m w) : SwapStep userId r v where
  register := .inl image
  objects o := by
    have noDrop : ∀ j, ¬(avatarLog userId r).drops j o v := by
      rintro j ⟨y, drops⟩
      cases (called.unique drops).2.1
    rw [avatarsOf_insert bucket own]
    constructor
    · rintro (there | rfl)
      · exact .inl ⟨there, noDrop⟩
      · exact .inr ⟨i, x, called⟩
    · rintro (⟨there, -⟩ | ⟨j, y, puts⟩)
      · exact .inl there
      · cases (called.unique puts).2.1
        exact .inr rfl
  swap j := by
    rintro ⟨y, swaps⟩
    cases (called.unique swaps).2.1
  put j m := by
    rintro ⟨y, puts⟩
    obtain ⟨rfl, same, -⟩ := called.unique puts
    cases same
    exact ⟨named, first⟩
  drop j m := by
    rintro ⟨y, drops⟩
    cases (called.unique drops).2.1

private theorem SwapStep.of_swap {x : Answer Input Failure}
    (called : r.CallsAt i v (.db .user .updateMany) x)
    (objects : avatarsOf userId (r.state (v + 1)) = avatarsOf userId (r.state v))
    (image : imageOf userId (r.state (v + 1)) = imageOf userId (r.state v) ∨
      ∀ n, imageOf userId (r.state (v + 1)) = some n → ∃ u < v, (avatarLog userId r).puts i n u)
    (first : ∀ w < v, ¬(avatarLog userId r).swaps i w) : SwapStep userId r v where
  register := image.imp_right fun put => ⟨i, ⟨x, called⟩, put⟩
  objects o := by
    have noDrop : ∀ j, ¬(avatarLog userId r).drops j o v := by
      rintro j ⟨y, drops⟩
      cases (called.unique drops).2.1
    rw [objects]
    constructor
    · exact fun there => .inl ⟨there, noDrop⟩
    · rintro (⟨there, -⟩ | ⟨j, y, puts⟩)
      · exact there
      · cases (called.unique puts).2.1
  swap j := by
    rintro ⟨y, swaps⟩
    obtain ⟨rfl, -⟩ := called.unique swaps
    exact first
  put j m := by
    rintro ⟨y, puts⟩
    cases (called.unique puts).2.1
  drop j m := by
    rintro ⟨y, drops⟩
    cases (called.unique drops).2.1

private theorem SwapStep.of_drop {x : Answer Input Failure}
    (called : r.CallsAt i v (.deleteObject n) x)
    (image : imageOf userId (r.state (v + 1)) = imageOf userId (r.state v))
    (bucket : (r.state (v + 1)).bucket = (r.state v).bucket.erase n)
    (reason : ∃ w < v, (avatarLog userId r).Loses i n w ∨ (avatarLog userId r).Replaces i n w) :
    SwapStep userId r v where
  register := .inl image
  objects o := by
    rw [avatarsOf_erase bucket]
    constructor
    · rintro ⟨there, other⟩
      refine .inl ⟨there, ?_⟩
      rintro j ⟨y, drops⟩
      cases (called.unique drops).2.1
      exact other rfl
    · rintro (⟨there, noDrop⟩ | ⟨j, y, puts⟩)
      · refine ⟨there, ?_⟩
        rintro rfl
        exact noDrop i ⟨x, called⟩
      · cases (called.unique puts).2.1
  swap j := by
    rintro ⟨y, swaps⟩
    cases (called.unique swaps).2.1
  put j m := by
    rintro ⟨y, puts⟩
    cases (called.unique puts).2.1
  drop j m := by
    rintro ⟨y, drops⟩
    obtain ⟨rfl, same, -⟩ := called.unique drops
    cases same
    exact reason

/-! ### What one request does -/

variable {expiresInSeconds : Nat} {request : Nat → AvatarRequest}

/-- Two objects of one name are the same object. -/
private theorem puts_once_of (run : AvatarRun userId expiresInSeconds request r) {j : Nat}
    (step : SwapStep userId r t) (step' : SwapStep userId r u)
    (puts : (avatarLog userId r).puts i n t) (puts' : (avatarLog userId r).puts j n u) :
    i = j ∧ t = u := by
  obtain ⟨⟨s, -, inp, file, generated, same⟩, first⟩ := step.put i n puts
  obtain ⟨⟨s', -, inp', file', generated', same'⟩, first'⟩ := step'.put j n puts'
  obtain rfl := (run.fresh i s inp file generated).2 j s' inp' file' generated'
    (same'.symm.trans same)
  obtain ⟨rfl, -⟩ := generated.unique generated'
  rcases Nat.lt_trichotomy t u with earlier | rfl | later
  · exact absurd puts (first' t earlier n)
  · exact ⟨rfl, rfl⟩
  · exact absurd puts' (first u later n)

private theorem puts_new (run : AvatarRun userId expiresInSeconds request r)
    (step : SwapStep userId r t) (puts : (avatarLog userId r).puts i n t) :
    n ∉ avatarsOf userId r.start := by
  obtain ⟨⟨s, -, inp, file, generated, rfl⟩, -⟩ := step.put i n puts
  exact fun there => (run.fresh i s inp file generated).1 there.1

/-- The name of a new object is not the image before the request's own swap. -/
private theorem not_yet (run : AvatarRun userId expiresInSeconds request r)
    (kept : Kept userId r t) (put : u < t) (puts : (avatarLog userId r).puts i n u)
    (unswapped : ∀ w < t, ¬(avatarLog userId r).swaps i w) :
    imageOf userId (r.state t) ≠ some n := by
  intro named
  rcases SwapLog.named_origin (L := avatarLog userId r) named with start | ⟨b, hb, before, after⟩
  · exact puts_new run (kept.steps u put) puts ((run.start n).mpr start)
  · rcases (kept.steps b hb).register with same | ⟨j, swaps, turned⟩
    · exact before (same.symm.trans after)
    · obtain ⟨p, hp, puts'⟩ := turned n after
      obtain ⟨rfl, -⟩ :=
        puts_once_of run (kept.steps u put) (kept.steps p (hp.trans hb)) puts puts'
      exact unswapped b hb swaps

private abbrev Trace := List (Nat × Label × Answer Input Failure)

/-- A method of request `i`, in terms of the calls the request has made. -/
private abbrev Follows {α : Type} (userId : Uuid) (r : Run World Input Failure Label η Unit)
    (i : Nat) (m : Promise α) (Q : Except Failure α → Nat → Prop) : Nat → Prop :=
  Safe (r.setting i (Kept userId r)) m Q

section Methods

variable {α : Type} {trace : Trace}

private theorem before_of_made (now : r.made i t = trace) : ∀ p ∈ trace, p.1 < t := by
  rintro ⟨v, l, x⟩ there
  rw [← now] at there
  exact (Run.mem_made.mp there).1

private theorem called_of_made (now : r.made i t = trace) {l : Label} {x : Answer Input Failure}
    (there : (v, l, x) ∈ trace) : r.CallsAt i v l x := by
  rw [← now] at there
  exact (Run.mem_made.mp there).2

private theorem last_of_made {l : Label} {x : Answer Input Failure}
    (now : r.made i t = trace ++ [(v, l, x)]) : v < t ∧ r.CallsAt i v l x := by
  have there : (v, l, x) ∈ trace ++ [(v, l, x)] :=
    List.mem_append_right _ (List.mem_singleton_self _)
  exact ⟨before_of_made now _ there, called_of_made now there⟩

private theorem mem_of_called (now : r.made i t = trace) {l : Label} {x : Answer Input Failure}
    (called : r.CallsAt i v l x) (before : v < t) : (v, l, x) ∈ trace := by
  rw [← now]
  exact Run.mem_made.mpr ⟨before, called⟩

/-- A call that changes nothing. -/
private theorem follows_plain {c : Call World Input Failure Label α}
    {Q : Except Failure α → Nat → Prop} (now : r.made i t = trace) (plain : isPlain c.label = true)
    (same : ∀ x w, (c.answer x w).2 = w)
    (rest : ∀ u x, Kept userId r u → ∀ w, r.made i w = trace ++ [(u, c.label, x)] →
      Q (c.answer x (r.state u)).1 w) : Follows userId r i (.call c) Q t := by
  apply Run.safe_call now
  intro u x called _ kept _ next
  have next : r.state (u + 1) = r.state u := next.trans (same x _)
  have step : SwapStep userId r u :=
    .still (by rw [next]) (by rw [next]) (isPlain_of_call called plain)
  refine ⟨kept.next (next ▸ kept.user) (next ▸ kept.own) step, fun w made _ _ => ?_⟩
  exact rest u x kept w made

private theorem follows_currentImage (now : r.made i t = trace) :
    Follows userId r i (AvatarService.currentImage userId)
      (fun result w => ∃ u x, r.made i w = trace ++ [(u, .db .user .findUnique, x)] ∧
        Kept userId r u ∧ ((∃ e, result = .error e) ∨ result = .ok (imageOf userId (r.state u)))) t := by
  unfold AvatarService.currentImage
  rw [bind_eq]
  apply Safe.bind
  refine follows_plain now rfl (fun x w => by cases x <;> rfl) fun u x kept w made => ?_
  cases x with
  | threw e => exact ⟨u, _, made, kept, .inl ⟨e, rfl⟩⟩
  | took inp =>
    dsimp only [onOk, Call.answer_took]
    cases found : (r.state u).db.users.find userId with
    | none =>
      intro v quiet _
      exact ⟨u, _, (Run.made_quiet quiet).trans made, kept, .inl ⟨_, rfl⟩⟩
    | some user =>
      intro v quiet _
      refine ⟨u, _, (Run.made_quiet quiet).trans made, kept, .inr ?_⟩
      rw [imageOf, found]
      rfl

/-- What a swap does to the image of the user, and the count it returns. -/
private theorem swap_effect {w : World} (user : w.db.users.has userId = true)
    (previous image : Option String) :
    let held := fun a : User => decide (a.id = userId) && decide (a.image = previous)
    let users := w.db.users.updateWhere held (fun a => { a with image }) fun _ => rfl
    users.has userId = true ∧
      (imageOf userId w = previous ∧ (w.db.users.rows.filter held).length = 1 ∧
          (users.find userId).bind (·.image) = image ∨
        imageOf userId w ≠ previous ∧ (w.db.users.rows.filter held).length = 0 ∧
          (users.find userId).bind (·.image) = imageOf userId w) := by
  intro held users
  refine ⟨Table.has_updateWhere (User.id_withImage image) user, ?_⟩
  obtain ⟨a, ha, id⟩ := Table.has_iff.mp user
  have found : w.db.users.find userId = some a := Table.find_eq_some.mpr ⟨ha, id⟩
  have now : imageOf userId w = a.image := by
    rw [imageOf, found]
    rfl
  have updated : users.find userId = some (if held a then { a with image } else a) := by
    refine Table.find_eq_some.mpr ⟨List.mem_map_of_mem ha, ?_⟩
    split <;> exact id
  rw [now, updated]
  by_cases same : a.image = previous
  · have hits : ∀ b ∈ w.db.users.rows, held b = decide (b.id = userId) := by
      intro b hb
      by_cases own : b.id = userId
      · obtain rfl := Table.eq_of_key hb ha (own.trans id.symm)
        simp [held, own, same]
      · simp [held, own]
    have hit : held a = true := by simp [held, id, same]
    refine .inl ⟨same, ?_, ?_⟩
    · rw [List.filter_congr hits, Table.filter_of_find found]
      rfl
    · rw [if_pos hit]
      rfl
  · have miss : held a = false := by simp [held, same]
    refine .inr ⟨same, ?_, ?_⟩
    · rw [List.length_eq_zero_iff, List.filter_eq_nil_iff]
      intro b hb hit
      have own : b.id = userId := by
        have := Bool.and_eq_true_iff.mp hit
        exact of_decide_eq_true this.1
      obtain rfl := Table.eq_of_key hb ha (own.trans id.symm)
      rw [miss] at hit
      cases hit
    · rw [miss]
      rfl

/-- The swap of a request: it throws, it misses, or it turns the image. -/
private theorem follows_swapImage {previous image : Option String} (now : r.made i t = trace)
    (first : ∀ p ∈ trace, p.2.1 ≠ .db .user .updateMany)
    (put : ∀ m, image = some m → ownAvatarObject userId.text (some m) = some m ∧
      ∃ p x, (p, Label.uploadObject m, x) ∈ trace) :
    Follows userId r i (AvatarService.swapImage userId previous image) (fun result v => ∃ w x,
      r.made i v = trace ++ [(w, .db .user .updateMany, x)] ∧ (∀ p ∈ trace, p.1 < w) ∧
      (∀ b < w, ¬(avatarLog userId r).swaps i b) ∧ Kept userId r w ∧
      ((∃ e, result = .error e ∧ imageOf userId (r.state (w + 1)) = imageOf userId (r.state w)) ∨
        result = .ok 1 ∧ imageOf userId (r.state w) = previous ∧
          imageOf userId (r.state (w + 1)) = image ∨
        result = .ok 0 ∧ imageOf userId (r.state w) ≠ previous ∧
          imageOf userId (r.state (w + 1)) = imageOf userId (r.state w))) t := by
  unfold AvatarService.swapImage
  apply Run.safe_call now
  intro u x called made kept _ next
  have unswapped : ∀ b < u, ¬(avatarLog userId r).swaps i b := by
    rintro b hb ⟨y, swaps⟩
    exact first _ (mem_of_called made swaps hb) rfl
  have puts : ∀ m, image = some m → ∃ p < u, (avatarLog userId r).puts i m p := by
    intro m hm
    obtain ⟨-, p, y, there⟩ := put m hm
    exact ⟨p, before_of_made made _ there, y, called_of_made made there⟩
  cases x with
  | threw e =>
    have next : r.state (u + 1) = r.state u := next
    have step : SwapStep userId r u :=
      .of_swap called (by rw [next]) (.inl (by rw [next])) unswapped
    refine ⟨kept.next (next ▸ kept.user) (next ▸ kept.own) step, fun v made' _ _ => ?_⟩
    exact ⟨u, _, made', before_of_made made, unswapped, kept, .inl ⟨e, rfl, by rw [next]⟩⟩
  | took inp =>
    obtain ⟨user, effect⟩ := swap_effect kept.user previous image
    have bucket : avatarsOf userId (r.state (u + 1)) = avatarsOf userId (r.state u) := by
      rw [next]
      rfl
    have there : (r.state (u + 1)).db.users.has userId = true := by
      rw [next]
      exact user
    have turned : imageOf userId (r.state (u + 1)) =
        (((r.state u).db.users.updateWhere (fun a : User => decide (a.id = userId) &&
          decide (a.image = previous)) (fun a => { a with image }) fun _ => rfl).find userId).bind
            (·.image) := by
      rw [next]
      rfl
    rw [← turned] at effect
    rcases effect with ⟨held, count, changed⟩ | ⟨missed, count, same⟩
    · have step : SwapStep userId r u :=
        .of_swap called bucket (.inr fun m hm => puts m (changed.symm.trans hm)) unswapped
      refine ⟨kept.next there (fun m hm => (put m (changed.symm.trans hm)).1) step,
        fun v made' _ _ => ?_⟩
      exact ⟨u, _, made', before_of_made made, unswapped, kept,
        .inr (.inl ⟨congrArg Except.ok count, held, changed⟩)⟩
    · have step : SwapStep userId r u := .of_swap called bucket (.inl same) unswapped
      refine ⟨kept.next there (fun m hm => kept.own m (same.symm.trans hm)) step,
        fun v made' _ _ => ?_⟩
      exact ⟨u, _, made', before_of_made made, unswapped, kept,
        .inr (.inr ⟨congrArg Except.ok count, missed, same⟩)⟩

/-- What a request has done when it ends. -/
private structure Done (userId : Uuid) (r : Run World Input Failure Label η Unit) (i : Nat)
    (result : Except Failure α) (t : Nat) : Prop where
  finished : (avatarLog userId r).Finished i t
  loser : ∀ e, result = .error e → ∀ v < t, ∀ n, (avatarLog userId r).drops i n v →
    ∃ u < v, (avatarLog userId r).puts i n u

private theorem done_of_trace {result : Except Failure α} (now : r.made i t = trace)
    (put : ∀ n u x, (u, Label.uploadObject n, x) ∈ trace →
      (∃ v y, u < v ∧ (v, Label.deleteObject n, y) ∈ trace) ∨
        ∃ w < t, imageOf userId (r.state (w + 1)) = some n)
    (replaced : ∀ n w x, (w, Label.db .user .updateMany, x) ∈ trace →
      imageOf userId (r.state w) = some n → imageOf userId (r.state (w + 1)) ≠ some n →
        ∃ v y, w < v ∧ (v, Label.deleteObject n, y) ∈ trace)
    (loser : ∀ e, result = .error e → ∀ n v x, (v, Label.deleteObject n, x) ∈ trace →
      ∃ u y, u < v ∧ (u, Label.uploadObject n, y) ∈ trace) : Done userId r i result t := by
  have dropped : ∀ {n v y}, (v, Label.deleteObject n, y) ∈ trace →
      v < t ∧ (avatarLog userId r).drops i n v := fun there =>
    ⟨before_of_made now _ there, _, called_of_made now there⟩
  constructor
  · constructor
    · rintro n u hu ⟨x, puts⟩
      rcases put n u x (mem_of_called now puts hu) with ⟨v, y, huv, there⟩ | named
      · exact .inl ⟨v, huv, dropped there⟩
      · exact .inr named
    · rintro n w hw ⟨x, swaps⟩ before after
      obtain ⟨v, y, hwv, there⟩ := replaced n w x (mem_of_called now swaps hw) before after
      exact ⟨v, hwv, dropped there⟩
  · rintro e failed v hv n ⟨x, drops⟩
    obtain ⟨u, y, huv, there⟩ := loser e failed n v x (mem_of_called now drops hv)
    exact ⟨u, huv, y, called_of_made now there⟩

/-- A failure is the same whatever the method was to return. -/
private theorem Done.failed {β : Type} {e : Failure}
    (done : Done userId r i (.error e : Except Failure α) t) :
    Done userId r i (.error e : Except Failure β) t :=
  ⟨done.finished, fun _ _ => done.loser e rfl⟩

/-- It stays so however long the request waits. -/
private theorem Done.later {result : Except Failure α} (done : Done userId r i result t)
    (quiet : r.Quiet i t u) : Done userId r i result u := by
  have earlier : ∀ {v l x}, v < u → r.CallsAt i v l x → v < t := by
    intro v l x hv called
    by_contra after
    exact quiet.2 v (not_lt.mp after) hv l x called
  constructor
  · constructor
    · rintro n p hp ⟨x, puts⟩
      rcases done.finished.put n p (earlier hp puts) ⟨x, puts⟩ with ⟨v, hpv, hvt, drops⟩ |
        ⟨w, hw, named⟩
      · exact .inl ⟨v, hpv, hvt.trans_le quiet.1, drops⟩
      · exact .inr ⟨w, hw.trans_le quiet.1, named⟩
    · rintro n w hw ⟨x, swaps⟩ before after
      obtain ⟨v, hwv, hvt, drops⟩ :=
        done.finished.replaced n w (earlier hw swaps) ⟨x, swaps⟩ before after
      exact ⟨v, hwv, hvt.trans_le quiet.1, drops⟩
  · rintro e failed v hv n ⟨x, drops⟩
    exact done.loser e failed v (earlier hv drops) n ⟨x, drops⟩

/-- A request that has made plain calls only. -/
private theorem done_of_plain {result : Except Failure α} (now : r.made i t = trace)
    (plain : ∀ p ∈ trace, isPlain p.2.1 = true) : Done userId r i result t := by
  apply done_of_trace now
  · exact fun n u x there => absurd (plain _ there) Bool.false_ne_true
  · exact fun n w x there => absurd (plain _ there) Bool.false_ne_true
  · exact fun e _ n v x there => absurd (plain _ there) Bool.false_ne_true

variable (run : AvatarRun userId expiresInSeconds request r)
include run

private theorem AvatarRun.took {l : Label} {x : Answer Input Failure} (called : r.CallsAt i v l x)
    (storage : ∀ model op, l ≠ .db model op) : ∃ inp, x = .took inp := by
  cases x with
  | took inp => exact ⟨inp, rfl⟩
  | threw e =>
    obtain ⟨model, op, same⟩ := run.answers i v l e called
    exact absurd same (storage model op)

/-- A plain call of the storage. -/
private theorem follows_storage {c : Call World Input Failure Label α}
    {Q : Except Failure α → Nat → Prop} (now : r.made i t = trace) (plain : isPlain c.label = true)
    (storage : ∀ model op, c.label ≠ .db model op) (same : ∀ inp w, (c.run inp w).2 = w)
    (rest : ∀ u inp, r.CallsAt i u c.label (.took inp) →
      ∀ w, r.made i w = trace ++ [(u, c.label, .took inp)] → Q (c.run inp (r.state u)).1 w) :
    Follows userId r i (.call c) Q t := by
  apply Run.safe_call now
  intro u x called _ kept _ next
  obtain ⟨inp, rfl⟩ := run.took called storage
  have next : r.state (u + 1) = r.state u := next.trans (same inp _)
  have step : SwapStep userId r u :=
    .still (by rw [next]) (by rw [next]) (isPlain_of_call called plain)
  refine ⟨kept.next (next ▸ kept.user) (next ▸ kept.own) step, fun w made _ _ => ?_⟩
  exact rest u inp called w made

private theorem follows_bucketUpload (now : r.made i t = trace)
    (own : ownAvatarObject userId.text (some n) = some n)
    (named : ∃ s inp file, (s, Label.randomUUID, Answer.took inp) ∈ trace ∧
      n = objectName userId (inp.uuid 0) file)
    (first : ∀ p ∈ trace, ∀ m, p.2.1 ≠ .uploadObject m) :
    Follows userId r i (GcpStorageService.bucketUpload n) (fun result w => result = .ok () ∧
      ∃ u x, r.made i w = trace ++ [(u, .uploadObject n, x)]) t := by
  apply Run.safe_call now
  intro u x called made kept _ next
  obtain ⟨inp, rfl⟩ := run.took called nofun
  have next : r.state (u + 1) = { r.state u with bucket := insert n (r.state u).bucket } := next
  have step : SwapStep userId r u := by
    refine .of_put called (by rw [next]; rfl) (by rw [next]) own ?_ ?_
    · obtain ⟨s, inp, file, generated, same⟩ := named
      exact ⟨s, before_of_made made _ generated, inp, file, called_of_made made generated, same⟩
    · rintro w hw m ⟨y, puts⟩
      exact first _ (mem_of_called made puts hw) m rfl
  have user : (r.state (u + 1)).db.users.has userId = true := by
    rw [next]
    exact kept.user
  refine ⟨kept.next user (fun m hm => kept.own m ?_) step, fun w made' _ _ => ⟨rfl, u, _, made'⟩⟩
  rw [next] at hm
  exact hm

private theorem follows_uploadObject (now : r.made i t = trace)
    (own : ownAvatarObject userId.text (some n) = some n)
    (named : ∃ s inp file, (s, Label.randomUUID, Answer.took inp) ∈ trace ∧
      n = objectName userId (inp.uuid 0) file)
    (first : ∀ p ∈ trace, ∀ m, p.2.1 ≠ .uploadObject m) :
    Follows userId r i (GcpStorageService.uploadObject n) (fun result w => result = .ok () ∧
      ∃ a x b y u z c z', r.made i w = trace ++ [(a, .mkdtemp, x), (b, .writeFile, y),
        (u, .uploadObject n, z), (c, .rm, z')]) t := by
  unfold GcpStorageService.uploadObject Promise.withCleanup
  simp only [bind_eq, pure_eq, throw_eq, tryCatch_eq]
  apply Safe.bind
  refine follows_storage run now rfl nofun (fun _ _ => rfl) fun a x _ w made => ?_
  dsimp only [onOk]
  apply Safe.bind
  apply Safe.handle
  apply Safe.bind
  refine follows_storage run made rfl nofun (fun _ _ => rfl) fun b y _ w made => ?_
  dsimp only [onOk]
  refine (follows_bucketUpload run made own ?_ ?_).weaken fun result w _ h => ?_
  · obtain ⟨s, inp, file, generated, same⟩ := named
    exact ⟨s, inp, file, by simp [generated], same⟩
  · intro p hp m
    simp only [List.append_assoc, List.mem_append, List.mem_singleton] at hp
    rcases hp with hp | rfl | rfl
    · exact first p hp m
    · exact nofun
    · exact nofun
  obtain ⟨rfl, u, z, made⟩ := h
  dsimp only [onOk]
  apply Safe.bind
  refine follows_storage run made rfl nofun (fun _ _ => rfl) fun c z' _ w made => ?_
  dsimp only [onOk]
  intro v quiet _
  refine ⟨rfl, a, .took x, b, .took y, u, z, c, .took z', ?_⟩
  rw [Run.made_quiet quiet, made, List.append_assoc, List.append_assoc, List.append_assoc]
  rfl

private theorem follows_deleteQuietly (now : r.made i t = trace)
    (reason : ∀ u, r.made i u = trace → ∃ w < u,
      (avatarLog userId r).Loses i n w ∨ (avatarLog userId r).Replaces i n w) :
    Follows userId r i (AvatarService.deleteQuietly n) (fun result w => result = .ok () ∧
      ∃ v x, (∀ p ∈ trace, p.1 < v) ∧ r.made i w = trace ++ [(v, .deleteObject n, x)]) t := by
  unfold AvatarService.deleteQuietly
  simp only [pure_eq, tryCatch_eq]
  apply Safe.handle
  apply Run.safe_call now
  intro u x called made kept _ next
  obtain ⟨inp, rfl⟩ := run.took called nofun
  have next : r.state (u + 1) = { r.state u with bucket := (r.state u).bucket.erase n } := next
  have step : SwapStep userId r u :=
    .of_drop called (by rw [next]; rfl) (by rw [next]) (reason u made)
  have user : (r.state (u + 1)).db.users.has userId = true := by
    rw [next]
    exact kept.user
  refine ⟨kept.next user (fun m hm => kept.own m ?_) step, fun w made' _ _ => ?_⟩
  · rw [next] at hm
    exact hm
  · exact ⟨rfl, u, _, before_of_made made, made'⟩

/-- The trace of an upload up to its swap. -/
private structure Uploaded (trace : Trace) (n : String) : Prop where
  put : ∃ p z, (p, Label.uploadObject n, z) ∈ trace
  only : ∀ q ∈ trace, isPlain q.2.1 = true ∨ q.2.1 = .uploadObject n

omit run in
private theorem Uploaded.unswapped (uploaded : Uploaded trace n) :
    ∀ q ∈ trace, q.2.1 ≠ .db .user .updateMany := by
  intro q hq same
  rcases uploaded.only q hq with plain | put
  · rw [same] at plain
    cases plain
  · rw [same] at put
    cases put

omit run in
private theorem Uploaded.name {m : String} {x : Answer Input Failure} (uploaded : Uploaded trace n)
    (there : (u, Label.uploadObject m, x) ∈ trace) : m = n := by
  rcases uploaded.only _ there with plain | put
  · cases plain
  · cases put
    rfl

omit run in
private theorem Uploaded.undropped {m : String} {x : Answer Input Failure}
    (uploaded : Uploaded trace n) : (u, Label.deleteObject m, x) ∉ trace := by
  intro there
  rcases uploaded.only _ there with plain | put
  · cases plain
  · cases put

/-- An upload whose swap has failed deletes its own object. -/
private theorem follows_lost {e : Failure} {w : Nat} {x : Answer Input Failure}
    (uploaded : Uploaded trace n) (now : r.made i t = trace ++ [(w, .db .user .updateMany, x)])
    (before : ∀ q ∈ trace, q.1 < w) (unswapped : ∀ b < w, ¬(avatarLog userId r).swaps i b)
    (kept : Kept userId r w)
    (same : imageOf userId (r.state (w + 1)) = imageOf userId (r.state w))
    {Q : Except Failure α → Nat → Prop}
    (ends : ∀ v, Done userId r i (.error e : Except Failure α) v → Q (.error e) v) :
    Follows userId r i ((AvatarService.deleteQuietly n).bind fun _ => .fail e) Q t := by
  obtain ⟨p, z, put⟩ := uploaded.put
  apply Safe.bind
  refine (follows_deleteQuietly run now fun u made => ?_).weaken fun result v _ h => ?_
  · have puts : (avatarLog userId r).puts i n p :=
      ⟨z, called_of_made made (List.mem_append_left _ put)⟩
    obtain ⟨hw, swaps⟩ := last_of_made made
    refine ⟨w, hw, .inl ⟨⟨x, swaps⟩, ⟨p, before _ put, puts⟩, ?_⟩⟩
    show imageOf userId (r.state (w + 1)) ≠ some n
    rw [same]
    exact not_yet run kept (before _ put) puts unswapped
  obtain ⟨rfl, v', y, after, made⟩ := h
  intro z' quiet _
  apply ends
  apply done_of_trace ((Run.made_quiet quiet).trans made)
  · intro m u x' there
    simp only [List.append_assoc, List.mem_append, List.mem_cons, List.not_mem_nil, or_false,
      Prod.mk.injEq, reduceCtorEq, false_and, and_false] at there
    obtain rfl := uploaded.name there
    exact .inl ⟨v', y, after _ (List.mem_append_left _ there), by simp⟩
  · intro m w' x' there held left
    simp only [List.append_assoc, List.mem_append, List.mem_cons, List.not_mem_nil, or_false,
      Prod.mk.injEq, reduceCtorEq, false_and, and_false, true_and] at there
    rcases there with there | ⟨rfl, -⟩
    · exact absurd rfl (uploaded.unswapped _ there)
    · exact absurd (same.trans held) left
  · intro e' _ m u x' there
    simp only [List.append_assoc, List.mem_append, List.mem_cons, List.not_mem_nil, or_false,
      Prod.mk.injEq, reduceCtorEq, false_and, and_false, false_or, Label.deleteObject.injEq] at there
    rcases there with there | ⟨rfl, rfl, -⟩
    · exact absurd there uploaded.undropped
    · exact ⟨p, z, after _ (List.mem_append_left _ put), by simp [put]⟩

omit run in
/-- An upload whose swap has turned the image, and that has deleted the object before. -/
private theorem done_won {w : Nat} {x : Answer Input Failure} {rest : Trace} {a : α}
    (uploaded : Uploaded trace n)
    (made : r.made i t = trace ++ [(w, .db .user .updateMany, x)] ++ rest)
    (plain : ∀ q ∈ rest, (∀ k, q.2.1 ≠ .uploadObject k) ∧ q.2.1 ≠ .db .user .updateMany)
    (turned : imageOf userId (r.state (w + 1)) = some n)
    (dropped : ∀ k, imageOf userId (r.state w) = some k →
      ∃ v y, w < v ∧ (v, Label.deleteObject k, y) ∈ rest) :
    Done userId r i (.ok a : Except Failure α) t := by
  have hw : w < t := before_of_made made (w, .db .user .updateMany, x) (by simp)
  apply done_of_trace made
  · intro k u x' there
    rcases List.mem_append.mp there with there | there
    · rcases List.mem_append.mp there with there | there
      · obtain rfl := uploaded.name there
        exact .inr ⟨w, hw, turned⟩
      · cases List.mem_singleton.mp there
    · exact absurd rfl ((plain _ there).1 k)
  · intro k w' x' there held _
    rcases List.mem_append.mp there with there | there
    · rcases List.mem_append.mp there with there | there
      · exact absurd rfl (uploaded.unswapped _ there)
      · cases List.mem_singleton.mp there
        obtain ⟨v, y, hv, deleted⟩ := dropped k held
        exact ⟨v, y, hv, List.mem_append_right _ deleted⟩
    · exact absurd rfl (plain _ there).2
  · exact fun e failed => nomatch failed

/-- After its swap has turned the image, an upload deletes the object before, and signs. -/
private theorem follows_won {previous : Option String} {w : Nat} {x : Answer Input Failure}
    (uploaded : Uploaded trace n) (now : r.made i t = trace ++ [(w, .db .user .updateMany, x)])
    (before : ∀ q ∈ trace, q.1 < w) (unswapped : ∀ b < w, ¬(avatarLog userId r).swaps i b)
    (kept : Kept userId r w) (held : imageOf userId (r.state w) = previous)
    (turned : imageOf userId (r.state (w + 1)) = some n) :
    Follows userId r i (match ownAvatarObject userId.text previous with
      | some previousObject => (AvatarService.deleteQuietly previousObject).bind fun _ =>
          GcpStorageService.getSignedDownloadUrl n expiresInSeconds
      | none => GcpStorageService.getSignedDownloadUrl n expiresInSeconds)
      (Done userId r i) t := by
  obtain ⟨p, z, put⟩ := uploaded.put
  split
  · next m own =>
    obtain rfl : previous = some m := by
      cases previous with
      | none => cases own
      | some k => exact (Option.filter_eq_some_iff.mp own).1
    have other : n ≠ m := by
      rintro rfl
      have puts : (avatarLog userId r).puts i n p :=
        ⟨z, called_of_made now (List.mem_append_left _ put)⟩
      exact not_yet run kept (before _ put) puts unswapped held
    apply Safe.bind
    refine (follows_deleteQuietly run now fun u made => ?_).weaken fun result v _ h => ?_
    · obtain ⟨hw, swaps⟩ := last_of_made made
      refine ⟨w, hw, .inr ⟨⟨x, swaps⟩, ⟨w, le_rfl, held⟩, fun same => other ?_⟩⟩
      exact Option.some.inj (turned.symm.trans same)
    obtain ⟨rfl, v', y, after, made⟩ := h
    have hw := after (w, .db .user .updateMany, x) (by simp)
    refine follows_storage run made rfl nofun (fun _ _ => rfl) fun c inp _ w' made => ?_
    rw [List.append_assoc] at made
    refine done_won uploaded made ?_ turned fun k hk => ?_
    · intro q hq
      simp only [List.mem_append, List.mem_singleton] at hq
      rcases hq with rfl | rfl
      · exact ⟨nofun, nofun⟩
      · exact ⟨nofun, nofun⟩
    · obtain rfl := Option.some.inj (held.symm.trans hk)
      exact ⟨v', y, hw, by simp⟩
  · next missing =>
    refine follows_storage run now rfl nofun (fun _ _ => rfl) fun c inp _ w' made => ?_
    refine done_won uploaded made ?_ turned fun k hk => ?_
    · intro q hq
      rw [List.mem_singleton.mp hq]
      exact ⟨nofun, nofun⟩
    · have own := kept.own k hk
      rw [← hk, held] at own
      cases missing.symm.trans (own.trans (held.symm.trans hk))

private theorem follows_upload (file : UploadedFile) (begins : r.made i t = []) :
    Follows userId r i (AvatarService.upload expiresInSeconds userId file) (Done userId r i) t := by
  unfold AvatarService.upload
  simp only [bind_eq, throw_eq, tryCatch_eq]
  apply Safe.bind
  refine (follows_currentImage begins).weaken fun result w _ h => ?_
  obtain ⟨u, x, made, -, ⟨e, rfl⟩ | rfl⟩ := h
  · exact done_of_plain made (by simp [isPlain])
  dsimp only [onOk]
  apply Safe.bind
  refine follows_storage run made rfl nofun (fun _ _ => rfl) fun s inp _ w made => ?_
  dsimp only [onOk]
  apply Safe.bind
  refine (follows_uploadObject run made (ownAvatar_objectName userId (inp.uuid 0) file)
    ⟨s, inp, file, by simp, rfl⟩ (by simp)).weaken fun result w _ h => ?_
  obtain ⟨rfl, a, xa, b, xb, p, xp, c, xc, made⟩ := h
  dsimp only [onOk]
  have uploaded : Uploaded ([] ++ [(u, Label.db .user .findUnique, x)] ++
      [(s, Label.randomUUID, Answer.took inp)] ++ [(a, .mkdtemp, xa), (b, .writeFile, xb),
        (p, .uploadObject (objectName userId (inp.uuid 0) file), xp), (c, .rm, xc)])
      (objectName userId (inp.uuid 0) file) :=
    ⟨⟨p, xp, by simp⟩, by simp [isPlain]⟩
  apply Safe.bind
  apply Safe.handle
  refine (follows_swapImage made uploaded.unswapped ?_).weaken fun result v _ h => ?_
  · rintro m same
    cases same
    exact ⟨ownAvatar_objectName userId (inp.uuid 0) file, uploaded.put⟩
  obtain ⟨w', y, made, before, unswapped, kept, outcome⟩ := h
  rcases outcome with ⟨e, rfl, same⟩ | ⟨rfl, held, turned⟩ | ⟨rfl, -, same⟩
  · exact follows_lost run uploaded made before unswapped kept same fun _ done => done.failed
  · dsimp only [onOk]
    rw [if_neg Nat.one_ne_zero]
    exact follows_won run uploaded made before unswapped kept held turned
  · dsimp only [onOk]
    rw [if_pos rfl]
    exact follows_lost run uploaded made before unswapped kept same fun _ done => done

private theorem follows_remove (begins : r.made i t = []) :
    Follows userId r i (AvatarService.remove userId) (Done userId r i) t := by
  unfold AvatarService.remove
  simp only [bind_eq, pure_eq, throw_eq]
  apply Safe.bind
  refine (follows_currentImage begins).weaken fun result w _ h => ?_
  obtain ⟨u, x, made, kept, ⟨e, rfl⟩ | rfl⟩ := h
  · exact done_of_plain made (by simp [isPlain])
  dsimp only [onOk]
  cases held : imageOf userId (r.state u) with
  | none =>
    intro v quiet _
    exact done_of_plain ((Run.made_quiet quiet).trans made) (by simp [isPlain])
  | some image =>
    have own := kept.own image held
    dsimp only
    rw [own]
    apply Safe.bind
    refine (follows_swapImage made (by simp) (by rintro m ⟨⟩)).weaken fun result v _ h => ?_
    obtain ⟨w', y, made, before, -, -, outcome⟩ := h
    -- whether it hit or missed, the image is not the one read any more
    have gone : (∃ e, result = .error e ∧
        imageOf userId (r.state (w' + 1)) = imageOf userId (r.state w')) ∨
        ∃ count, result = .ok count ∧ imageOf userId (r.state (w' + 1)) ≠ some image ∧
          ∀ k, imageOf userId (r.state w') = some k →
            imageOf userId (r.state (w' + 1)) ≠ some k → k = image := by
      rcases outcome with threw | ⟨hit, was, turned⟩ | ⟨miss, other, same⟩
      · exact .inl threw
      · refine .inr ⟨1, hit, by rw [turned]; exact nofun, fun k hk _ => ?_⟩
        exact Option.some.inj (hk.symm.trans was)
      · refine .inr ⟨0, miss, by rwa [same], fun k hk left => ?_⟩
        exact absurd (same.trans hk) left
    have hu : u < w' := before (u, _, x) (List.mem_singleton_self _)
    rcases gone with ⟨e, rfl, same⟩ | ⟨count, rfl, gone, only⟩
    · apply done_of_trace made
      · intro k u' x' there
        simp at there
      · intro k w'' x' there held' left
        simp only [List.nil_append, List.cons_append, List.mem_cons, List.not_mem_nil, or_false,
          Prod.mk.injEq, reduceCtorEq, Label.db.injEq, false_and, and_false, false_or,
          true_and] at there
        rw [there.1] at held' left
        exact absurd (same.trans held') left
      · intro e' _ k v' x' there
        simp at there
    · dsimp only [onOk]
      refine (follows_deleteQuietly run made fun z made => ?_).weaken fun result v _ h => ?_
      · obtain ⟨hw, swaps⟩ := last_of_made made
        exact ⟨w', hw, .inr ⟨⟨y, swaps⟩, ⟨u, hu.le, held⟩, gone⟩⟩
      obtain ⟨rfl, v', y', after, made⟩ := h
      have hw := after (w', .db .user .updateMany, y) (by simp)
      apply done_of_trace made
      · intro k u' x' there
        simp at there
      · intro k w'' x' there held' left
        simp only [List.nil_append, List.cons_append, List.mem_cons, List.not_mem_nil, or_false,
          Prod.mk.injEq, reduceCtorEq, Label.db.injEq, false_and, and_false, false_or,
          true_and] at there
        rw [there.1] at held' left ⊢
        obtain rfl := only k held' left
        exact ⟨v', y', hw, by simp⟩
      · exact fun e' failed => nomatch failed

private theorem follows_request (begins : r.made i t = []) :
    Follows userId r i ((request i).run expiresInSeconds userId) (Done userId r i) t := by
  cases request i with
  | remove => exact follows_remove run begins
  | upload file =>
    show Follows userId r i ((AvatarService.upload expiresInSeconds userId file).bind fun _ =>
      .done ()) (Done userId r i) t
    apply Safe.bind
    refine (follows_upload run file begins).weaken fun result w _ done => ?_
    cases result with
    | error e => exact done.failed
    | ok url =>
      intro v quiet _
      exact ⟨(done.later quiet).finished, fun e failed => nomatch failed⟩

/-- In any run each moment is a step of the protocol, and a request that has ended is done. -/
private theorem kept_through (t : Nat) : Kept userId r t ∧
    ∀ i result, r.Ended i t result → Done userId r i result t := by
  have own : ∀ n, imageOf userId r.start = some n → ownAvatarObject userId.text (some n) = some n :=
    fun n named => ((run.start n).mpr named).2
  have all : ∀ t, Kept userId r t ∧ ∀ i m, r.slot i t = some m →
      Safe (r.setting i (Kept userId r)) m (Done userId r i) t := by
    refine Run.safe ⟨run.user, own, nofun⟩ ?_ ?_ ?_
    · intro t kept same quiet
      refine kept.next (same ▸ kept.user) (same ▸ kept.own) (.still (by rw [same]) (by rw [same]) ?_)
      exact fun i l x called => absurd called (quiet i l x)
    · intro t act kept acts next
      obtain ⟨user, image, objects⟩ := run.outside t act acts kept.user
      rw [← next] at user image objects
      refine kept.next user (image ▸ kept.own) (.still image objects fun i l x called => ?_)
      have other := called.schedule.symm.trans acts
      cases other
    · intro i t begins _ _
      rw [run.requests i]
      exact follows_request run (Run.made_begins begins)
  exact ⟨(all t).1, fun i result ended => ended.post (all t).1 ((all t).2 i)⟩

private theorem lawful : (avatarLog userId r).Lawful where
  start := run.start
  register_cases t := ((kept_through run (t + 1)).1.steps t (Nat.lt_succ_self t)).register
  objects_iff t := ((kept_through run (t + 1)).1.steps t (Nat.lt_succ_self t)).objects
  puts_new i n t := puts_new run ((kept_through run (t + 1)).1.steps t (Nat.lt_succ_self t))
  puts_once i j n t u :=
    puts_once_of run ((kept_through run (t + 1)).1.steps t (Nat.lt_succ_self t))
      ((kept_through run (u + 1)).1.steps u (Nat.lt_succ_self u))
  swaps_once i t u swaps swaps' := by
    rcases Nat.lt_trichotomy t u with earlier | same | later
    · exact absurd swaps
        (((kept_through run (u + 1)).1.steps u (Nat.lt_succ_self u)).swap i swaps' t earlier)
    · exact same
    · exact absurd swaps'
        (((kept_through run (t + 1)).1.steps t (Nat.lt_succ_self t)).swap i swaps u later)
  drops_reason i n t := ((kept_through run (t + 1)).1.steps t (Nat.lt_succ_self t)).drop i n

end Methods

end Steps

/-- In any run of uploads and removals of one user the image and the bucket keep the protocol. -/
theorem avatar_protocol {userId : Uuid} {expiresInSeconds : Nat} {request : Nat → AvatarRequest}
    {r : Run World Input Failure Label η Unit} (run : AvatarRun userId expiresInSeconds request r)
    (t : Nat) : AvatarProtocol userId r t where
  named n image := ((lawful run).named_exists image).1
  spares i n x drops := (lawful run).dropped_forgotten ⟨x, drops⟩ le_rfl
  loser i e ended v hv n x drops := ((kept_through run t).2 i _ ended).loser e rfl v hv n ⟨x, drops⟩
  settled all o := by
    refine (lawful run).settled fun i => ?_
    cases hslot : r.slot i t with
    | none =>
      have done : Done userId r i (.ok () : Except Failure Unit) t :=
        done_of_plain (Run.made_of_slot hslot) (by simp)
      exact done.finished
    | some m =>
      obtain ⟨result, ended⟩ := all i m hslot
      exact ((kept_through run t).2 i result ⟨m, hslot, ended⟩).finished

end Runs

section Sample

private def portrait : UploadedFile := ⟨"me.png", "image/png", 10⟩

private def race (i : Nat) : AvatarRequest := if i < 2 then .upload portrait else .remove

/-- `alice` uploads two photos at once, of which the second loses, and removes the one set. -/
private def portraitRun : Run World Input Failure Label Empty Unit where
  requests i := (race i).run 60 alice
  outside := nofun
  start := World.signedUp
  schedule t :=
    if t < 2 then .begin t
    else if t < 18 then .advance (t % 2) (.took (.of (if t % 2 = 0 then firstId else secondId) 0))
    else if t = 18 then .begin 2
    else if t < 22 then .advance 2 (.took (.of thirdId 0))
    else .begin 0

private theorem portraitRun_call {i t : Nat} {l : Label} {x : Answer Input Failure}
    (called : portraitRun.CallsAt i t l x) :
    t < 18 ∧ i = t % 2 ∧ x = .took (.of (if t % 2 = 0 then firstId else secondId) 0) ∨
      t < 22 ∧ i = 2 ∧ x = .took (.of thirdId 0) := by
  have scheduled : (if t < 2 then Async.Choice.begin t
    else if t < 18 then
      .advance (t % 2) (.took (.of (if t % 2 = 0 then firstId else secondId) 0))
    else if t = 18 then .begin 2
    else if t < 22 then .advance 2 (.took (.of thirdId 0))
    else .begin 0 : Async.Choice Input Failure Empty) = .advance i x :=
    called.schedule
  split_ifs at scheduled <;> cases scheduled
  · exact .inl ⟨by omega, rfl, by simp [*]⟩
  · exact .inl ⟨by omega, rfl, by simp [*]⟩
  · exact .inr ⟨by assumption, rfl, rfl⟩

/-- The two uploads generate an id each, and the removal none. -/
private theorem portraitRun_generates {i t : Nat} {inp : Input}
    (called : portraitRun.CallsAt i t .randomUUID (.took inp)) :
    t = 4 ∧ inp.uuid 0 = firstId ∨ t = 5 ∧ inp.uuid 0 = secondId := by
  have waits := (Run.callsAt_iff.mp called).1
  rcases portraitRun_call called with ⟨ht, rfl, same⟩ | ⟨ht, rfl, -⟩
  · have twice : ∀ t < 18, portraitRun.awaited (t % 2) t = some .randomUUID → t = 4 ∨ t = 5 := by
      decide +kernel
    cases same
    rcases twice t ht waits with rfl | rfl
    · exact .inl ⟨rfl, rfl⟩
    · exact .inr ⟨rfl, rfl⟩
  · have never : ∀ t < 22, portraitRun.awaited 2 t ≠ some .randomUUID := by decide +kernel
    exact absurd waits (never t ht)

private theorem objectName_ne (file file' : UploadedFile) :
    objectName alice firstId file ≠ objectName alice secondId file' := by
  intro same
  simp only [objectName, String.append_assoc, ← String.toList_inj, String.toList_append,
    List.append_cancel_left_eq] at same
  have texts := List.append_inj_left same (by decide)
  revert texts
  decide

private theorem portraitRun_avatarRun : AvatarRun alice 60 race portraitRun := by
  refine ⟨fun _ => rfl, by decide, ?_, ?_, ?_, fun _ act => act.elim⟩
  · intro o
    constructor
    · exact fun there => absurd there.1 (by simp [portraitRun, World.signedUp, World.empty])
    · intro named
      cases named
  · intro i t l e called
    rcases portraitRun_call called with ⟨-, -, same⟩ | ⟨-, -, same⟩ <;> cases same
  · intro i t inp file called
    refine ⟨by simp [portraitRun, World.signedUp, World.empty], ?_⟩
    intro j u inp' file' called' same
    rcases portraitRun_generates called with ⟨rfl, first⟩ | ⟨rfl, second⟩ <;>
      rcases portraitRun_generates called' with ⟨rfl, first'⟩ | ⟨rfl, second'⟩
    · rfl
    · rw [first, second'] at same
      exact absurd same.symm (objectName_ne _ _)
    · rw [second, first'] at same
      exact absurd same (objectName_ne _ _)
    · rfl

theorem avatar_protocol_portrait : AvatarProtocol alice portraitRun 22 :=
  avatar_protocol portraitRun_avatarRun 22

end Sample

end GuitarCoach
