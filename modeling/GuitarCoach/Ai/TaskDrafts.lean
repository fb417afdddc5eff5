/- digest: normalizeTaskDrafts and the validation of POST /tasks/bulk: which drafts can be created. -/

import GuitarCoach.Ecma.Strings
import GuitarCoach.Store.Schema

/-!
The drafts of the model are cleaned up once by `normalizeTaskDrafts` and once more, as the body of
a request, by `CreateTaskDto`. Texts are UTF-16 code units: a clip can cut a surrogate pair, and
the two sides count a pair, and a character with a variation selector, differently.
-/

set_option autoImplicit false
set_option relaxedAutoImplicit false

namespace GuitarCoach

open Ecma (Units characters isSingle isSpace trim trim_take_iff trim_trim two_le_characters_iff
  characters_le_length isSingle_take units)

/-! ### `normalizeTaskDrafts` -/

/-- A task of `TaskDraftsWire`, and a `TaskDraft`. -/
structure TaskDraft where
  title : Units
  description : Units
  category : TaskCategory
  difficulty : TaskDifficulty

namespace TaskDraft

/-- `TITLE_MAX`. -/
def titleMax : Nat := 200

/-- `DESCRIPTION_MAX`. -/
def descriptionMax : Nat := 2000

/-- Trimmed and clipped. -/
def clip (task : TaskDraft) : TaskDraft :=
  { task with
    title := (trim task.title).take titleMax
    description := (trim task.description).take descriptionMax }

end TaskDraft

def normalizeTaskDrafts (wire : List TaskDraft) (count : Nat) : Except Failure (List TaskDraft) :=
  let drafts := ((wire.map TaskDraft.clip).filter fun task => 2 ≤ task.title.length).take count
  if drafts.length = 0 then .error (badGateway "The AI returned no usable task drafts")
  else .ok drafts

/-! ### `POST /tasks/bulk` -/

/-- A task of the body, as it is sent and as it arrives. -/
structure CreateTaskBody where
  title : Units
  category : Option Units
  difficulty : Option Units
  referenceLink : Option Units
  description : Option Units

namespace CreateTaskBody

/-- `@Transform(trim)` on every field. -/
def transform (task : CreateTaskBody) : CreateTaskBody :=
  ⟨trim task.title, task.category.map trim, task.difficulty.map trim, task.referenceLink.map trim,
    task.description.map trim⟩

/-- The decorators of `CreateTaskDto`; `isUrl` is the one of the library. -/
def isValid (isUrl : Units → Bool) (task : CreateTaskBody) : Bool :=
  (2 ≤ characters task.title && characters task.title ≤ 200) &&
    task.category.all (· ∈ [TaskCategory.technique, .theory, .repertoire].map (units ·.text)) &&
    task.difficulty.all (· ∈ [TaskDifficulty.easy, .medium, .hard].map (units ·.text)) &&
    task.referenceLink.all isUrl

end CreateTaskBody

/-- `BulkCreateTasksDto`: the tasks as they arrive, `none` for a request that is refused. -/
def validateBulk (isUrl : Units → Bool) (tasks : List CreateTaskBody) :
    Option (List CreateTaskBody) :=
  let tasks := tasks.map CreateTaskBody.transform
  if 1 ≤ tasks.length && tasks.length ≤ 10 && tasks.all (CreateTaskBody.isValid isUrl) then
    some tasks
  else none

/-- A draft, sent as it was received. -/
def TaskDraft.body (draft : TaskDraft) : CreateTaskBody :=
  ⟨draft.title, some (units draft.category.text), some (units draft.difficulty.text), none,
    some draft.description⟩

/-! ### Which drafts can be created -/

/-- The tasks of the model that become drafts. -/
def kept (wire : List TaskDraft) (count : Nat) : List TaskDraft :=
  (wire.filter fun task => 2 ≤ (trim task.title).length).take count

/-- The clip does not end in white space. -/
def ClipsCleanly (max : Nat) (s : Units) : Prop :=
  max < s.length → ∀ u, s[max - 1]? = some u → isSpace u = false

/-- The title is more than a single character, and no clip of it or of the description ends in
white space. -/
structure TaskDraft.Survives (task : TaskDraft) : Prop where
  characters : isSingle (trim task.title) = false
  title : ClipsCleanly titleMax (trim task.title)
  description : ClipsCleanly descriptionMax (trim task.description)

/-- The task arrives as it was in the draft. -/
def TaskDraft.ArrivesAs (draft : TaskDraft) (task : CreateTaskBody) : Prop :=
  task.title = draft.title ∧ task.description = some draft.description

/-- Some drafts in the model's order, each choice of which can be created as it is. -/
structure Creatable (isUrl : Units → Bool) (wire : List TaskDraft) (count : Nat)
    (drafts : List TaskDraft) : Prop where
  bounds : 1 ≤ drafts.length ∧ drafts.length ≤ count
  order : drafts.Sublist (wire.map TaskDraft.clip)
  created : ∀ selection, selection ≠ [] → selection.Subperm drafts → ∃ tasks,
    validateBulk isUrl (selection.map TaskDraft.body) = some tasks ∧
      List.Forall₂ TaskDraft.ArrivesAs selection tasks

section Drafts

variable {isUrl : Units → Bool} {wire : List TaskDraft} {count : Nat} {drafts : List TaskDraft}

private theorem clip_title_length (task : TaskDraft) :
    2 ≤ task.clip.title.length ↔ 2 ≤ (trim task.title).length := by
  have clipped : task.clip.title.length = min 200 (trim task.title).length := List.length_take
  omega

/-- The drafts are the clips of the tasks that are kept, and there are some. -/
theorem normalizeTaskDrafts_ok (returned : normalizeTaskDrafts wire count = .ok drafts) :
    drafts = (kept wire count).map TaskDraft.clip ∧ drafts ≠ [] := by
  have clips : ((wire.map TaskDraft.clip).filter fun task => 2 ≤ task.title.length).take count =
      (kept wire count).map TaskDraft.clip := by
    unfold kept
    rw [List.filter_map, List.map_take]
    have same : ((fun task : TaskDraft => decide (2 ≤ task.title.length)) ∘ TaskDraft.clip) =
        fun task => decide (2 ≤ (trim task.title).length) := by
      funext task
      exact decide_eq_decide.mpr (clip_title_length task)
    rw [same]
  unfold normalizeTaskDrafts at returned
  dsimp only at returned
  rw [clips] at returned
  split at returned
  · cases returned
  · next some =>
    cases returned
    exact ⟨rfl, fun empty => some (List.length_eq_zero_iff.mpr empty)⟩

private theorem category_text (category : TaskCategory) :
    trim (units category.text) = units category.text ∧
      units category.text ∈ [TaskCategory.technique, .theory, .repertoire].map (units ·.text) := by
  cases category <;> decide

private theorem difficulty_text (difficulty : TaskDifficulty) :
    trim (units difficulty.text) = units difficulty.text ∧
      units difficulty.text ∈ [TaskDifficulty.easy, .medium, .hard].map (units ·.text) := by
  cases difficulty <;> decide

private theorem transform_body (draft : TaskDraft) : draft.body.transform =
    { draft.body with title := trim draft.title, description := some (trim draft.description) } := by
  unfold CreateTaskBody.transform TaskDraft.body
  simp [(category_text draft.category).1, (difficulty_text draft.difficulty).1]

theorem validateBulk_some {selection : List TaskDraft} {tasks : List CreateTaskBody}
    (accepted : validateBulk isUrl (selection.map TaskDraft.body) = some tasks) :
    tasks = (selection.map TaskDraft.body).map CreateTaskBody.transform ∧
      ∀ draft ∈ selection, draft.body.transform.isValid isUrl = true := by
  unfold validateBulk at accepted
  dsimp only at accepted
  split at accepted
  · next passed =>
    rw [Bool.and_eq_true, List.all_eq_true] at passed
    refine ⟨(Option.some.inj accepted).symm, fun draft hdraft => passed.2 _ ?_⟩
    exact List.mem_map_of_mem (List.mem_map_of_mem hdraft)
  · cases accepted

theorem validateBulk_valid {selection : List TaskDraft} (one : 1 ≤ selection.length)
    (ten : selection.length ≤ 10)
    (valid : ∀ draft ∈ selection, draft.body.transform.isValid isUrl = true) :
    validateBulk isUrl (selection.map TaskDraft.body) =
      some ((selection.map TaskDraft.body).map CreateTaskBody.transform) := by
  have all : ((selection.map TaskDraft.body).map CreateTaskBody.transform).all
      (CreateTaskBody.isValid isUrl) = true := by
    rw [List.map_map, List.all_map, List.all_eq_true]
    exact valid
  unfold validateBulk
  dsimp only
  rw [all, if_pos]
  simp [one, ten]

/-- A draft passes if its title has from 2 to 200 characters, once trimmed. -/
private theorem isValid_body (draft : TaskDraft) : draft.body.transform.isValid isUrl = true ↔
    2 ≤ characters (trim draft.title) ∧ characters (trim draft.title) ≤ 200 := by
  have category := (category_text draft.category).2
  have difficulty := (difficulty_text draft.difficulty).2
  rw [transform_body]
  unfold CreateTaskBody.isValid TaskDraft.body
  simp only [Option.all_some, Option.all_none, category, difficulty]
  simp

/-- A task that is kept arrives as it was clipped just when it survives. -/
private theorem arrives_iff {task : TaskDraft} (long : 2 ≤ (trim task.title).length) :
    (task.clip.body.transform.isValid isUrl = true ∧
      task.clip.ArrivesAs task.clip.body.transform) ↔ task.Survives := by
  have title : trim task.clip.title = task.clip.title ↔
      ClipsCleanly TaskDraft.titleMax (trim task.title) :=
    trim_take_iff (trim_trim task.title) (by decide)
  have description : trim task.clip.description = task.clip.description ↔
      ClipsCleanly TaskDraft.descriptionMax (trim task.description) :=
    trim_take_iff (trim_trim task.description) (by decide)
  have arrives : task.clip.ArrivesAs task.clip.body.transform ↔
      trim task.clip.title = task.clip.title ∧
        trim task.clip.description = task.clip.description := by
    rw [transform_body]
    exact and_congr_right fun _ => Option.some_inj
  have most : characters task.clip.title ≤ 200 :=
    (characters_le_length _).trans (List.length_take_le _ _)
  have least : 2 ≤ characters task.clip.title ↔ isSingle (trim task.title) = false := by
    have single : isSingle task.clip.title = isSingle (trim task.title) := isSingle_take (by decide)
    rw [two_le_characters_iff, single]
    exact and_iff_right ((clip_title_length task).mpr long)
  rw [isValid_body, arrives]
  constructor
  · rintro ⟨⟨enough, -⟩, sameTitle, sameDescription⟩
    rw [sameTitle] at enough
    exact ⟨least.mp enough, title.mp sameTitle, description.mp sameDescription⟩
  · intro survives
    have sameTitle := title.mpr survives.title
    rw [sameTitle]
    exact ⟨⟨least.mpr survives.characters, most⟩, rfl, description.mpr survives.description⟩

/-- The drafts that come back for a count from 1 to 10 can be created, whichever are chosen,
just when every task that was kept survives. -/
theorem drafts_creatable_iff (range : 1 ≤ count ∧ count ≤ 10)
    (returned : normalizeTaskDrafts wire count = .ok drafts) :
    Creatable isUrl wire count drafts ↔ ∀ task ∈ kept wire count, task.Survives := by
  obtain ⟨clips, some⟩ := normalizeTaskDrafts_ok returned
  have long : ∀ task ∈ kept wire count, 2 ≤ (trim task.title).length := by
    intro task htask
    have passed := List.mem_of_mem_take htask
    simpa using (List.mem_filter.mp passed).2
  constructor
  · intro creatable task htask
    have draft : task.clip ∈ drafts := clips ▸ List.mem_map_of_mem htask
    obtain ⟨tasks, accepted, arrive⟩ := creatable.created [task.clip] (List.cons_ne_nil _ _)
      (List.singleton_sublist.mpr draft).subperm
    obtain ⟨rfl, valid⟩ := validateBulk_some accepted
    obtain ⟨here, -⟩ := List.forall₂_cons.mp arrive
    exact (arrives_iff (long task htask)).mp ⟨valid _ (List.mem_singleton_self _), here⟩
  · intro survive
    have arrive : ∀ draft ∈ drafts, draft.body.transform.isValid isUrl = true ∧
        draft.ArrivesAs draft.body.transform := by
      intro draft hdraft
      rw [clips] at hdraft
      obtain ⟨task, htask, rfl⟩ := List.mem_map.mp hdraft
      exact (arrives_iff (long task htask)).mpr (survive task htask)
    have few : drafts.length ≤ count := by
      rw [clips, List.length_map]
      exact List.length_take_le _ _
    have order : (kept wire count).Sublist wire :=
      (List.take_sublist _ _).trans List.filter_sublist
    refine ⟨⟨List.length_pos_of_ne_nil some, few⟩, clips ▸ order.map _,
      fun selection chosen subperm => ?_⟩
    have size := subperm.length_le
    have one := List.length_pos_of_ne_nil chosen
    refine ⟨_, validateBulk_valid (by omega) (by omega) fun draft hdraft =>
      (arrive draft (subperm.subset hdraft)).1, ?_⟩
    rw [List.map_map, List.forall₂_map_right_iff, List.forall₂_same]
    exact fun draft hdraft => (arrive draft (subperm.subset hdraft)).2

/-- One guitar, as an emoji. -/
private def guitar : TaskDraft := ⟨units "🎸", [], .technique, .easy⟩

theorem drafts_creatable_iff_guitar :
    Creatable (fun _ => true) [guitar] 1 [guitar] ↔ ∀ task ∈ kept [guitar] 1, task.Survives :=
  drafts_creatable_iff (by decide) rfl

/-- A title of one surrogate pair is kept, and refused when it is sent back. -/
theorem kept_draft_refused : ¬∀ (isUrl : Units → Bool) (wire : List TaskDraft) (count : Nat),
    1 ≤ count ∧ count ≤ 10 → ∀ drafts, normalizeTaskDrafts wire count = .ok drafts →
      Creatable isUrl wire count drafts := by
  intro claim
  have creatable := claim (fun _ => true) [guitar] 1 (by decide) [guitar] rfl
  obtain ⟨tasks, accepted, -⟩ := creatable.created [guitar] (List.cons_ne_nil _ _)
    (List.Subperm.refl _)
  obtain ⟨-, valid⟩ := validateBulk_some accepted
  have passed := valid guitar (List.mem_singleton_self _)
  revert passed
  decide

end Drafts

end GuitarCoach
