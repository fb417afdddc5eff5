/- digest: When a bumped version keeps old lists out of reach, whatever cache calls fail. -/

import GuitarCoach.Async.History
import GuitarCoach.Tasks.TaskSpecs

/-!
A read of the version that fails is taken for version 0. A write that then sets the version
takes it back to 1, and a search that then looks under version 0 finds the lists that were
cached before the first write.
-/

set_option autoImplicit false
set_option relaxedAutoImplicit false

namespace GuitarCoach

open Async (Answer Cue Ends History Method Policy Served states wp onOk wp_bind wp_handle wp_done
  wp_fail wp_ends)
open Async.Method (pure_eq throw_eq bind_eq tryCatch_eq)
open TasksService (storedVersion)

/-- Which calls of the cache fail while a request is served. -/
structure Faults where
  get : CacheKey → Bool
  set : CacheKey → Bool
  del : CacheKey → Bool

/-- These calls of the cache fail, the others do not; the database can fail. -/
def faultyCache (f : Faults) : Policy World Input Failure Label
  | .cacheGet key, _, .took _ => f.get key = false
  | .cacheGet key, _, .threw _ => f.get key = true
  | .cacheSet key, _, .took _ => f.set key = false
  | .cacheSet key, _, .threw _ => f.set key = true
  | .cacheDel key, _, .took _ => f.del key = false
  | .cacheDel key, _, .threw _ => f.del key = true
  | _, _, _ => True

/-- The calls that write tasks or read the lists of them. -/
inductive ListCall
  | create (dto : CreateTaskDto)
  | createMany (dtos : List CreateTaskDto)
  | update (id : String) (dto : UpdateTaskDto)
  | remove (id : String)
  | findAll (letters : Letters) (query : FindTasksQueryDto)

namespace ListCall

abbrev Result : ListCall → Type
  | create _ => Task
  | createMany _ => List Task
  | update .. => Task
  | remove _ => Unit
  | findAll .. => Paginated Task

def run : (q : ListCall) → Promise q.Result
  | create dto => TasksService.create dto
  | createMany dtos => TasksService.createMany dtos
  | update id dto => TasksService.update id dto
  | remove id => TasksService.remove id
  | findAll letters query => TasksService.findAll letters query

def writes : ListCall → Bool
  | findAll .. => false
  | _ => true

end ListCall

/-- Between two calls entries of the cache may expire, and anything else may happen that does
not touch the cache. -/
def Expires (w w' : World) : Prop :=
  ∀ key, w'.cache key = w.cache key ∨
    w'.cache key = none ∧ ∀ e ∈ w.cache key, e.expires = true

abbrev ListHistory (start : World) (calls : List (Served World Failure Faults ListCall.Result))
    (w : World) : Prop :=
  History ListCall.run faultyCache Expires start calls w

/-- The version that a call reads. -/
def versionRead (f : Faults) (w : World) : Nat :=
  if f.get .taskListVersion then 0 else storedVersion w

/-- Where `findAll` looks under a version. -/
abbrev listKey (version : Nat) (letters : Letters) (query : FindTasksQueryDto) : CacheKey :=
  TasksService.listCacheKey letters version (query.page.getD TasksService.defaultPage)
    (query.limit.getD TasksService.defaultLimit) query

/-- The write succeeded, and so did the bump of the version. -/
def Bumps (c : Served World Failure Faults ListCall.Result) : Prop :=
  c.request.writes = true ∧ c.result.isOk = true ∧ c.mode.set .taskListVersion = false

/-- The call answers from the cached list under this key. -/
def Finds (c : Served World Failure Faults ListCall.Result) (key : CacheKey) : Prop :=
  match c.request with
  | .findAll letters query =>
      key = listKey (versionRead c.mode c.before) letters query ∧ c.mode.get key = false ∧
        c.before.cache key ≠ none
  | _ => False

/-- The stored version never goes back to one it held before. -/
def VersionsNeverReturn (calls : List (Served World Failure Faults ListCall.Result)) : Prop :=
  ∀ a b c, [a, b, c].Sublist ((states calls).map storedVersion) → a = c → b = a

/-- No list that was cached before a write is found after the bump of that write. -/
def ListsStayForgotten (calls : List (Served World Failure Faults ListCall.Result)) : Prop :=
  ∀ past c middle d rest, calls = past ++ c :: (middle ++ d :: rest) → Bumps c →
    ∀ key, Finds d key → c.before.cache key = none

/-- A call that cannot read the version while one is stored does no harm: a write does not set
the version, and a search finds nothing under version 0. -/
def HarmlessRead (c : Served World Failure Faults ListCall.Result) : Prop :=
  c.mode.get .taskListVersion = true → storedVersion c.before ≠ 0 →
    match c.request with
    | .findAll letters query =>
        c.mode.get (listKey 0 letters query) = true ∨ c.before.cache (listKey 0 letters query) = none
    | _ => c.mode.set .taskListVersion = true

/-- No list is cached for a version to come, and the version stays. -/
structure Versioned (w : World) : Prop where
  lists : ∀ version page limit category difficulty search,
    w.cache (.taskList version page limit category difficulty search) ≠ none →
      version ≤ storedVersion w
  stays : ∀ e ∈ w.cache .taskListVersion, e.expires = false

/-! ### One call -/

/-- What a write does to the cache besides the keys of single tasks. -/
structure Wrote (f : Faults) (w : World) (ok : Bool) (v : World) : Prop where
  lists : ∀ version page limit category difficulty search,
    v.cache (.taskList version page limit category difficulty search) =
      w.cache (.taskList version page limit category difficulty search)
  version : v.cache .taskListVersion =
    if ok && !f.set .taskListVersion then some ⟨(versionRead f w + 1 : Nat), false⟩
    else w.cache .taskListVersion

/-- What a search does to the cache: it may store a page under the version it read. -/
def Searched (f : Faults) (w : World) (letters : Letters) (query : FindTasksQueryDto) (v : World) :
    Prop :=
  v.cache = w.cache ∨ ∃ page, v.cache =
    Function.update w.cache (listKey (versionRead f w) letters query) (some ⟨page, true⟩)

section Calls

variable {f : Faults} {w : World}

private theorem faulty_steady (l : Label) (s t : World) (x : Answer Input Failure)
    (may : faultyCache f l s x) : faultyCache f l t x := by
  cases l <;> cases x <;> exact may

private theorem wrote_nothing : Wrote f w false w := ⟨fun _ _ _ _ _ _ => rfl, rfl⟩

private theorem read_version {Q : Except Failure Nat → World → Prop}
    (read : Q (.ok (versionRead f w)) w) : wp (faultyCache f) TasksService.listVersion Q w := by
  apply TasksService.wp_listVersion
  · intro i works
    have works : f.get .taskListVersion = false := works
    simpa [versionRead, works] using read
  · intro e fails
    have fails : f.get .taskListVersion = true := fails
    simpa [versionRead, fails] using read

private theorem bump_wrote : wp (faultyCache f) TasksService.bumpListCacheVersion
    (onOk (fun _ => Wrote f w true) fun _ _ => False) w := by
  unfold TasksService.bumpListCacheVersion
  rw [bind_eq, wp_bind]
  apply read_version
  apply TasksService.wp_safeCacheSet
  · intro i works
    have works : f.set .taskListVersion = false := works
    exact ⟨fun _ _ _ _ _ _ => by simp, by simp [works]⟩
  · intro e fails
    have fails : f.set .taskListVersion = true := fails
    exact ⟨fun _ _ _ _ _ _ => rfl, by simp [fails]⟩

/-- Only the cache counts. -/
private theorem Wrote.of_cache {w' v : World} {ok : Bool} (wrote : Wrote f w' ok v)
    (same : w'.cache = w.cache) : Wrote f w ok v := by
  have read : versionRead f w' = versionRead f w := by
    unfold versionRead storedVersion
    rw [same]
  refine ⟨fun version page limit category difficulty search => ?_, ?_⟩
  · rw [wrote.lists, same]
  · rw [wrote.version, same, read]

/-- A statement, and then the bump if it succeeded. -/
private theorem statement_wrote {α β : Type} {model : Model} {op : Operation}
    {touched : Db → RowSet} {g : Input → Db → Except Failure (α × Db)} {rest : α → Promise β}
    {Q : Except Failure β → World → Prop}
    (later : ∀ a w', w'.cache = w.cache → wp (faultyCache f) (rest a) Q w')
    (failed : ∀ e, Q (.error e) w) :
    wp (faultyCache f) ((Promise.write model op touched g).bind rest) Q w := by
  rw [wp_bind]
  apply Promise.wp_write
  · exact fun i a db _ _ => later a _ rfl
  · exact fun i e _ _ => failed e
  · exact fun e _ => failed e

private theorem bump_returns {α : Type} {a : α} {w' : World} (same : w'.cache = w.cache) :
    wp (faultyCache f) (TasksService.bumpListCacheVersion.bind fun _ => .done a)
      (fun r v => Wrote f w r.isOk v) w' := by
  rw [wp_bind]
  refine Async.wp_mono bump_wrote fun r v h => ?_
  cases r with
  | ok _ => exact h.of_cache same
  | error _ => exact h.elim

private theorem invalidate_returns {α : Type} {id : String} {a : α} {w' : World}
    (same : w'.cache = w.cache) :
    wp (faultyCache f) ((Method.par (TasksService.safeCacheDel (.task id))
      TasksService.bumpListCacheVersion).bind fun _ => .done a)
      (fun r v => Wrote f w r.isOk v) w' := by
  rw [wp_bind]
  apply TasksService.wp_invalidate faulty_steady bump_wrote
  · intro v hv
    refine Wrote.of_cache ⟨fun version page limit category difficulty search => ?_, ?_⟩ same
    · rw [← hv.lists]
      simp
    · exact Eq.trans (by simp) hv.version
  · exact fun v _ hv _ => hv.of_cache same

theorem write_wrote (q : ListCall) (writes : q.writes = true) :
    wp (faultyCache f) q.run (fun r v => Wrote f w r.isOk v) w := by
  cases q with
  | create dto =>
    show wp (faultyCache f) (TasksService.create dto) _ w
    unfold TasksService.create
    simp only [bind_eq, pure_eq]
    exact statement_wrote (fun _ _ => bump_returns) fun _ => wrote_nothing
  | createMany dtos =>
    show wp (faultyCache f) (TasksService.createMany dtos) _ w
    unfold TasksService.createMany
    simp only [bind_eq, pure_eq]
    exact statement_wrote (fun _ _ => bump_returns) fun _ => wrote_nothing
  | update id dto =>
    show wp (faultyCache f) (TasksService.update id dto) _ w
    unfold TasksService.update
    simp only [bind_eq, pure_eq, throw_eq, tryCatch_eq, wp_handle]
    apply statement_wrote
    · intro task w' same
      refine Async.wp_mono (invalidate_returns same) fun r v wrote => ?_
      cases r with
      | ok a => exact wrote
      | error e =>
        dsimp only [onOk]
        split <;> exact wrote
    · intro e
      dsimp only [onOk]
      split <;> exact wrote_nothing
  | remove id =>
    show wp (faultyCache f) (TasksService.remove id) _ w
    unfold TasksService.remove
    simp only [bind_eq, pure_eq, throw_eq, tryCatch_eq, wp_bind, wp_handle]
    apply Promise.wp_write
    · intro i a db _ _
      have invalidated := @invalidate_returns f w Unit id () { w with db } rfl
      rw [wp_bind] at invalidated
      exact invalidated
    · intro i e _ _
      dsimp only [onOk]
      split <;> exact wrote_nothing
    · intro e _
      dsimp only [onOk]
      split <;> exact wrote_nothing
  | findAll letters query => cases writes

private theorem queryPage_reads {letters : Letters} {query : FindTasksQueryDto} {page limit : Nat} :
    wp (faultyCache f) (TasksService.queryPage letters query page limit) (fun _ v => w = v) w := by
  refine Async.Calls.wp (fun _ => rfl) (fun _ _ _ => Eq.trans) ?_
  refine Async.Method.calls_bind (Async.Method.calls_par (Async.Method.calls_call ?_)
    (Async.Method.calls_call ?_)) fun _ => trivial
  all_goals
    rintro (i | e) s _
    · rfl
    · rfl

/-- A search answers from the list it finds, or stores the page it has read. -/
theorem findAll_searched (letters : Letters) (query : FindTasksQueryDto) :
    wp (faultyCache f) (TasksService.findAll letters query)
      (fun r v => Searched f w letters query v ∧
        (f.get (listKey (versionRead f w) letters query) = false →
          ∀ e ∈ w.cache (listKey (versionRead f w) letters query), r = .ok e.value)) w := by
  -- the page that is read from the database
  have page : wp (faultyCache f) ((TasksService.queryPage letters query
      (query.page.getD TasksService.defaultPage) (query.limit.getD TasksService.defaultLimit)).bind
      fun result => (TasksService.safeCacheSet (listKey (versionRead f w) letters query) result
        true).bind fun _ => .done result) (fun _ v => Searched f w letters query v) w := by
    rw [wp_bind]
    refine Async.wp_mono queryPage_reads fun r v same => ?_
    subst same
    cases r with
    | error e => exact .inl rfl
    | ok result =>
      dsimp only [onOk]
      rw [wp_bind]
      exact TasksService.wp_safeCacheSet (fun _ _ => .inr ⟨result, rfl⟩) fun _ _ => .inl rfl
  -- the list under the version that was read
  unfold TasksService.findAll
  rw [bind_eq, wp_bind]
  apply read_version
  dsimp only [onOk]
  rw [bind_eq, wp_bind]
  apply TasksService.wp_safeCacheGet
  · intro i _
    cases hit : w.cache (listKey (versionRead f w) letters query) with
    | some cached =>
      refine ⟨.inl rfl, fun _ e he => ?_⟩
      cases he
      rfl
    | none => exact Async.wp_mono page fun r v searched => ⟨searched, fun _ => nofun⟩
  · intro e fails
    have fails : f.get (listKey (versionRead f w) letters query) = true := fails
    refine Async.wp_mono page fun r v searched => ⟨searched, fun works => ?_⟩
    rw [works] at fails
    cases fails

theorem Wrote.versioned {ok : Bool} {v : World} (wrote : Wrote f w ok v) (versioned : Versioned w)
    (harmless : ok = true → f.set .taskListVersion = false → versionRead f w = storedVersion w) :
    Versioned v ∧ storedVersion w ≤ storedVersion v ∧
      (ok = true → f.set .taskListVersion = false → storedVersion w < storedVersion v) := by
  by_cases bumps : ok = true ∧ f.set .taskListVersion = false
  · obtain ⟨hok, hset⟩ := bumps
    have hcache : v.cache .taskListVersion = some ⟨(storedVersion w + 1 : Nat), false⟩ := by
      rw [wrote.version, harmless hok hset]
      simp [hok, hset]
    have hversion : storedVersion v = storedVersion w + 1 := by
      simp [storedVersion, hcache]
    refine ⟨⟨fun version page limit category difficulty search cached => ?_, fun e he => ?_⟩, ?_⟩
    · rw [wrote.lists] at cached
      have older := versioned.lists _ _ _ _ _ _ cached
      omega
    · rw [hcache] at he
      cases he
      rfl
    · exact ⟨by omega, fun _ _ => by omega⟩
  · have hcache : v.cache .taskListVersion = w.cache .taskListVersion := by
      rw [wrote.version, if_neg (by simpa using bumps)]
    have hversion : storedVersion v = storedVersion w := by
      unfold storedVersion
      rw [hcache]
    refine ⟨⟨fun version page limit category difficulty search cached => ?_, fun e he => ?_⟩, ?_⟩
    · rw [wrote.lists] at cached
      have older := versioned.lists _ _ _ _ _ _ cached
      omega
    · exact versioned.stays e (hcache ▸ he)
    · exact ⟨by omega, fun hok hset => absurd ⟨hok, hset⟩ bumps⟩

theorem versionRead_le : versionRead f w ≤ storedVersion w := by
  unfold versionRead
  split
  · exact Nat.zero_le _
  · exact le_rfl

theorem Searched.versioned {letters : Letters} {query : FindTasksQueryDto} {v : World}
    (searched : Searched f w letters query v) (versioned : Versioned w) :
    Versioned v ∧ storedVersion w = storedVersion v := by
  have hversion : v.cache .taskListVersion = w.cache .taskListVersion := by
    rcases searched with same | ⟨page, stored⟩
    · rw [same]
    · rw [stored]
      simp
  have hstored : storedVersion w = storedVersion v := by
    unfold storedVersion
    rw [hversion]
  refine ⟨⟨fun version page limit category difficulty search cached => ?_, fun e he => ?_⟩, hstored⟩
  · rcases searched with same | ⟨result, stored⟩
    · rw [same] at cached
      exact hstored ▸ versioned.lists _ _ _ _ _ _ cached
    · by_cases own : CacheKey.taskList version page limit category difficulty search =
          listKey (versionRead f w) letters query
      · injection own with hread
        rw [hread, ← hstored]
        exact versionRead_le
      · rw [stored, Function.update_of_ne own] at cached
        exact hstored ▸ versioned.lists _ _ _ _ _ _ cached
  · exact versioned.stays e (hversion ▸ he)

end Calls

/-- A served call keeps the lists at or below the stored version, which it never takes back;
a bump takes it on. -/
theorem served_versioned (c : Served World Failure Faults ListCall.Result)
    (versioned : Versioned c.before) (harmless : c.result.isOk = true → HarmlessRead c)
    (ends : Ends (faultyCache c.mode) c.request.run c.before c.result c.after) :
    Versioned c.after ∧ storedVersion c.before ≤ storedVersion c.after ∧
      (Bumps c → storedVersion c.before < storedVersion c.after) := by
  obtain ⟨f, q, r, w, v⟩ := c
  by_cases writes : q.writes = true
  · have wrote : Wrote f w r.isOk v := wp_ends (write_wrote q writes) ends
    have reads : r.isOk = true → f.set .taskListVersion = false →
        versionRead f w = storedVersion w := by
      intro hok hset
      unfold versionRead
      split
      · next fails =>
        by_contra stored
        have failed : f.set .taskListVersion = true := by
          have harm := harmless hok fails (Ne.symm stored)
          cases q with
          | findAll letters query => cases writes
          | _ => exact harm
        rw [hset] at failed
        cases failed
      · rfl
    obtain ⟨hv, hle, hlt⟩ := wrote.versioned versioned reads
    exact ⟨hv, hle, fun bumps => hlt bumps.2.1 bumps.2.2⟩
  · cases q with
    | findAll letters query =>
      have searched := (wp_ends (findAll_searched letters query) ends).1
      obtain ⟨hv, hstored⟩ := searched.versioned versioned
      exact ⟨hv, hstored.le, fun bumps => absurd bumps.1 writes⟩
    | _ => exact absurd rfl writes

theorem Versioned.expires {w w' : World} (versioned : Versioned w) (expires : Expires w w') :
    Versioned w' ∧ storedVersion w ≤ storedVersion w' := by
  have hversion : w'.cache .taskListVersion = w.cache .taskListVersion := by
    rcases expires .taskListVersion with same | ⟨gone, all⟩
    · exact same
    · cases hw : w.cache .taskListVersion with
      | none => exact gone
      | some e => exact absurd ((versioned.stays e hw).symm.trans (all e hw)) nofun
  have hstored : storedVersion w = storedVersion w' := by
    unfold storedVersion
    rw [hversion]
  refine ⟨⟨fun version page limit category difficulty search cached => ?_, fun e he => ?_⟩, hstored.le⟩
  · rcases expires (.taskList version page limit category difficulty search) with same | ⟨gone, -⟩
    · exact hstored ▸ versioned.lists _ _ _ _ _ _ (same ▸ cached)
    · exact absurd gone cached
  · exact versioned.stays e (hversion ▸ he)

/-- A list that is found under the version read by a call that succeeds has the version that is
stored. -/
theorem version_of_finds {c : Served World Failure Faults ListCall.Result} {key : CacheKey}
    (finds : Finds c key) (harmless : c.result.isOk = true → HarmlessRead c)
    (ends : Ends (faultyCache c.mode) c.request.run c.before c.result c.after) :
    ∃ letters query, key = listKey (storedVersion c.before) letters query := by
  obtain ⟨f, q, r, w, v⟩ := c
  cases q with
  | findAll letters query =>
    obtain ⟨rfl, works, cached⟩ := finds
    obtain ⟨e, he⟩ := Option.ne_none_iff_exists'.mp cached
    have answer : r = .ok e.value := (wp_ends (findAll_searched letters query) ends).2 works e he
    have read : versionRead f w = storedVersion w := by
      unfold versionRead
      split
      · next fails =>
        by_contra stored
        have harm := harmless (answer ▸ rfl) fails (Ne.symm stored)
        have zero : versionRead f w = 0 := by simp [versionRead, fails]
        rcases harm with unread | absent
        · rw [zero] at works
          exact absurd (works.symm.trans unread) nofun
        · rw [zero] at cached
          exact cached absent
      · rfl
    exact ⟨letters, query, by rw [read]⟩
  | _ => exact finds.elim

/-- Unless a call that cannot read the stored version makes use of version 0, the version never
goes back, and every list that was cached before a write stays out of reach once the bump of
the write succeeded. -/
theorem lists_stay_forgotten {start w : World}
    {calls : List (Served World Failure Faults ListCall.Result)} (versioned : Versioned start)
    (history : ListHistory start calls w)
    (harmless : ∀ c ∈ calls, c.result.isOk = true → HarmlessRead c) :
    VersionsNeverReturn calls ∧ ListsStayForgotten calls := by
  obtain ⟨-, before, sorted, -⟩ := History.ordered (fun s t => storedVersion s ≤ storedVersion t)
    Versioned (fun c => c.result.isOk = true → HarmlessRead c) (fun _ => le_rfl) le_trans
    (fun c versioned harmless ends =>
      have served := served_versioned c versioned harmless ends
      ⟨served.1, served.2.1⟩)
    (fun _ _ versioned expires => versioned.expires expires) versioned history harmless
  constructor
  · intro a b c sublist same
    have ordered := (List.pairwise_map.mpr sorted).sublist sublist
    simp only [List.pairwise_cons, List.mem_cons, List.not_mem_nil, or_false, forall_eq_or_imp,
      forall_eq] at ordered
    omega
  · intro past c middle d rest split bumps key finds
    have hc : c ∈ calls := by simp [split]
    have hd : d ∈ calls := by simp [split]
    obtain ⟨letters, query, rfl⟩ := version_of_finds finds (harmless d hd) (history.ends d hd)
    by_contra cached
    have older : storedVersion d.before ≤ storedVersion c.before :=
      (before c hc).lists _ _ _ _ _ _ cached
    have bumped := (served_versioned c (before c hc) (harmless c hc) (history.ends c hc)).2.2 bumps
    have later : storedVersion c.after ≤ storedVersion d.before := Async.after_before sorted split
    omega

section Sample

private def scales : CreateTaskDto := ⟨"Scales", .absent, .absent, .absent, .absent⟩

private def scalesRow (id : Uuid) : Task := scales.row (.of id 0) 0

private def plainLetters : Letters := ⟨id, id⟩

private theorem noPage : ∀ p ∈ (none : Option Nat), 1 ≤ p := by simp

private theorem noLimit : ∀ l ∈ (none : Option Nat), 1 ≤ l ∧ l ≤ 100 := by simp

private def firstPage : FindTasksQueryDto := ⟨none, none, none, none, none, noPage, noLimit⟩

private def scalesPage : Paginated Task := ⟨[scalesRow firstId], ⟨1, 1, 20, 1⟩⟩

private def noFault : Faults := ⟨fun _ => false, fun _ => false, fun _ => false⟩

/-- Only the read of the version fails. -/
private def versionLost : Faults := { noFault with get := fun key => key = .taskListVersion }

private def lost : Failure := .unexpected "connection lost"

private def createsScales (id : Uuid) (w : World) : Served World Failure Faults ListCall.Result :=
  ⟨noFault, .create scales, .ok (scalesRow id), w,
    Async.after (ListCall.create scales).run (List.replicate 3 (took (.of id 0))) w⟩

/-- The cues of a search that finds nothing in the cache. -/
private def searchCues : List (Cue Input Failure) :=
  [took (.of alice 0), took (.of alice 0), .side true, took (.of alice 0), took (.of alice 0),
    took (.of alice 0)]

private def searches (cues : List (Cue Input Failure)) (w : World) :
    Served World Failure Faults ListCall.Result :=
  ⟨noFault, .findAll plainLetters firstPage, .ok scalesPage, w,
    Async.after (ListCall.findAll plainLetters firstPage).run cues w⟩

private def created₁ := createsScales firstId World.signedUp
private def searched₁ := searches searchCues created₁.after
private def created₂ := createsScales secondId searched₁.after

/-- The third create cannot read the version. -/
private def created₃ : Served World Failure Faults ListCall.Result :=
  ⟨versionLost, .create scales, .ok (scalesRow thirdId), created₂.after,
    Async.after (ListCall.create scales).run
      [took (.of thirdId 0), threw lost, took (.of thirdId 0)] created₂.after⟩

private def searched₂ := searches [took (.of alice 0), took (.of alice 0)] created₃.after

/-- `faultyCache`, as a test of one answer. -/
private def permits (f : Faults) : Label → World → Answer Input Failure → Bool
  | .cacheGet key, _, .took _ => !f.get key
  | .cacheGet key, _, .threw _ => f.get key
  | .cacheSet key, _, .took _ => !f.set key
  | .cacheSet key, _, .threw _ => f.set key
  | .cacheDel key, _, .took _ => !f.del key
  | .cacheDel key, _, .threw _ => f.del key
  | _, _, _ => true

private theorem permits_sound (f : Faults) (l : Label) (s : World) (x : Answer Input Failure)
    (permitted : permits f l s x = true) : faultyCache f l s x := by
  cases l <;> cases x <;> simp_all [permits, faultyCache]

private theorem fresh_history : ListHistory World.signedUp [created₁, searched₁, created₂]
    created₂.after :=
  .serve noFault _ _ (.serve noFault _ _ (.serve noFault _ _ .idle
    (Async.ends_after_fits (permits_sound _) (by decide +kernel) (by decide +kernel)))
    (Async.ends_after_fits (permits_sound _) (by decide +kernel) (by decide +kernel)))
    (Async.ends_after_fits (permits_sound _) (by decide +kernel) (by decide +kernel))

private theorem lost_history : ListHistory World.signedUp
    [created₁, searched₁, created₂, created₃, searched₂] searched₂.after :=
  .serve noFault _ _ (.serve versionLost _ _ fresh_history
    (Async.ends_after_fits (permits_sound _) (by decide +kernel) (by decide +kernel)))
    (Async.ends_after_fits (permits_sound _) (by decide +kernel) (by decide +kernel))

private theorem signedUp_versioned : Versioned World.signedUp :=
  ⟨fun _ _ _ _ _ _ cached => absurd rfl cached, fun _ he => nomatch he⟩

theorem lists_stay_forgotten_fresh :
    VersionsNeverReturn [created₁, searched₁, created₂] ∧
      ListsStayForgotten [created₁, searched₁, created₂] := by
  refine lists_stay_forgotten signedUp_versioned fresh_history ?_
  have reads : ∀ c : Served World Failure Faults ListCall.Result, c.mode = noFault →
      c.result.isOk = true → HarmlessRead c := by
    intro c hmode _ fails
    rw [hmode] at fails
    cases fails
  simp only [List.mem_cons, List.not_mem_nil, or_false, forall_eq_or_imp, forall_eq]
  exact ⟨reads _ rfl, reads _ rfl, reads _ rfl⟩

/-- After a bump that could not read version 2, the lists of version 1 are found again. -/
theorem old_lists_return :
    (¬∀ calls w, ListHistory World.signedUp calls w → VersionsNeverReturn calls) ∧
      ¬∀ calls w, ListHistory World.signedUp calls w → ListsStayForgotten calls := by
  constructor
  · intro claim
    have returns := claim _ _ lost_history 1 2 1 (by decide +kernel) rfl
    cases returns
  · intro claim
    have read : 1 = versionRead noFault created₃.after := by decide +kernel
    have found : Finds searched₂ (listKey 1 plainLetters firstPage) :=
      ⟨congrArg (fun version => listKey version plainLetters firstPage) read, rfl,
        Option.isSome_iff_ne_none.mp (by decide +kernel)⟩
    have forgotten := claim _ _ lost_history [created₁, searched₁] created₂ [created₃] searched₂ []
      rfl ⟨rfl, rfl, rfl⟩ _ found
    have cached : (created₂.before.cache (listKey 1 plainLetters firstPage)).isSome = true := by
      decide +kernel
    rw [forgotten] at cached
    cases cached

end Sample

end GuitarCoach
