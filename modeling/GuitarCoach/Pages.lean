/- digest: The pages of the three list endpoints partition their rows iff no tie is cut. -/

import GuitarCoach.PracticeSessions.PracticeSessionsService
import GuitarCoach.Tasks.TaskSpecs

set_option autoImplicit false
set_option relaxedAutoImplicit false

namespace GuitarCoach

open Async (Answer Cue Ends Policy exec after ends_after wp onOk wp_bind wp_handle wp_done wp_ends)
open Async.Method (pure_eq throw_eq bind_eq tryCatch_eq)
open Relational (NoTieAcross Partitions answers_perm_iff mul_lt_of_lt_totalPages
  newestFirst_isPreorder orderBy totalPages window)

/-- The database answers; the cache answers or fails. -/
def databaseUp : Policy World Input Failure Label
  | _, _, .took _ => True
  | .cacheGet _, _, .threw _ => True
  | .cacheSet _, _, .threw _ => True
  | _, _, .threw _ => False

private theorem database_takes {model : Model} {op : Operation} {w : World} {e : Failure} :
    ¬databaseUp (.db model op) w (.threw e) := id

/-- A database that may break ties in this way. -/
private def ranked (rank : Nat → Nat) : Input := { Input.of alice 0 with rank }

private def cacheDown : Failure := .unexpected "connection lost"

/-- `Promise.all` of the page and the count of one database state. -/
private theorem pageAndCount_wp {α : Type} {model : Model} {w : World}
    {page : Input → Db → Except Failure (List α)} {count : Db → Except Failure Nat}
    {Q : Except Failure (List α × Nat) → World → Prop}
    (read : ∀ i rows n, page i w.db = .ok rows → count w.db = .ok n → Q (.ok (rows, n)) w)
    (refused : ∀ e, Q (.error e) w) :
    wp databaseUp (Async.Method.par
      (Promise.read model .findMany page) (Promise.read model .count fun _ db => count db)) Q w := by
  refine Async.wp_par_call ?_ ?_
  · refine Promise.wp_call (fun i _ => ?_) fun _ h => absurd h database_takes
    dsimp only
    cases rows : page i w.db with
    | error e => exact refused e
    | ok rows' =>
      refine Promise.wp_call (fun _ _ => ?_) fun _ h => absurd h database_takes
      dsimp only
      cases total : count w.db with
      | error e => exact refused e
      | ok n => exact read i rows' n rows total
  · refine Promise.wp_call (fun _ _ => ?_) fun _ h => absurd h database_takes
    dsimp only
    cases total : count w.db with
    | error e => exact refused e
    | ok n =>
      refine Promise.wp_call (fun i _ => ?_) fun _ h => absurd h database_takes
      dsimp only
      cases rows : page i w.db with
      | error e => exact refused e
      | ok rows' => exact read i rows' n rows total

private theorem pageAndCount_ends {α : Type} {model : Model} {w : World}
    {page : Input → Db → Except Failure (List α)} {count : Db → Except Failure Nat}
    (rank : Nat → Nat) {rows : List α} {n : Nat} (hrows : page (ranked rank) w.db = .ok rows)
    (total : count w.db = .ok n) :
    Ends databaseUp (Async.Method.par
        (Promise.read model .findMany page) (Promise.read model .count fun _ db => count db)) w
      (.ok (rows, n)) w := by
  have page_read : Ends databaseUp (Promise.read model .findMany page) w (.ok rows) w :=
    hrows ▸ Promise.ends_read (i := ranked rank) trivial
  have count_read : Ends databaseUp (Promise.read model .count fun _ db => count db) w (.ok n) w :=
    total ▸ Promise.ends_read (g := fun _ db => count db) (i := ranked rank) trivial
  unfold Promise.read at page_read count_read ⊢
  rw [Async.Method.par_call]
  exact .either true (page_read.bind (count_read.bind (.done _ _)))

/-! ### The pages that are read -/

theorem withSkip_eq_ok {α : Type} {page limit : Nat} {rows a : α} :
    withSkip page limit rows = .ok a ↔ fitsInt8 (skipOf page limit) = true ∧ rows = a := by
  unfold withSkip
  split <;> simp_all

theorem skip_first (limit : Nat) : fitsInt8 (skipOf (0 + 1) limit) = true := by
  simp [skipOf, Ecma.roundToDouble, fitsInt8]

theorem skipOf_mono (limit : Nat) : Monotone fun k => skipOf (k + 1) limit := by
  intro j k le
  exact Ecma.roundToDouble_mono (Nat.mul_le_mul_right _ (Ecma.roundToDouble_mono le))

/-- The `skip` of each page is one that Prisma takes, and doubles compute it exactly. -/
def SkipsFit (total limit : Nat) : Prop :=
  ∀ k < totalPages total limit,
    fitsInt8 (skipOf (k + 1) limit) = true ∧ skipOf (k + 1) limit = k * limit

/-- The query for the page after `k` others. -/
def FindTasksQueryDto.onPage (query : FindTasksQueryDto) (k : Nat) : FindTasksQueryDto :=
  { query with page := some (k + 1), pageMin := by simp }

def FindRoutinesQueryDto.onPage (query : FindRoutinesQueryDto) (k : Nat) :
    FindRoutinesQueryDto :=
  { query with page := some (k + 1), pageMin := by simp }

def FindPracticeSessionsQueryDto.onPage (query : FindPracticeSessionsQueryDto) (k : Nat) :
    FindPracticeSessionsQueryDto :=
  { query with page := some (k + 1), pageMin := by simp }

private theorem limit_pos {limit : Option Nat} {default : Nat}
    (range : ∀ l ∈ limit, 1 ≤ l ∧ l ≤ 100) (pos : 0 < default) : 0 < limit.getD default := by
  cases limit with
  | none => exact pos
  | some l => exact (range l rfl).1

private theorem skipOf_exact {page limit : Nat} (small : (page - 1) * limit < 2 ^ 53) :
    skipOf page limit = (page - 1) * limit := by
  unfold skipOf
  rcases Nat.eq_zero_or_pos limit with rfl | pos
  · simp [Ecma.roundToDouble]
  · have le : page - 1 ≤ (page - 1) * limit := Nat.le_mul_of_pos_right _ pos
    rw [Ecma.isNumber_of_lt (le.trans_lt small), Ecma.isNumber_of_lt small]

/-- They all are, in every table of at most `2 ^ 53` rows. -/
theorem skipsFit_of_length {total limit : Nat} (few : total ≤ 2 ^ 53) : SkipsFit total limit := by
  intro k hk
  have before : k * limit < total := mul_lt_of_lt_totalPages hk
  have exactly : skipOf (k + 1) limit = k * limit := skipOf_exact (by
    rw [Nat.add_sub_cancel]
    omega)
  refine ⟨?_, exactly⟩
  rw [exactly]
  simp only [fitsInt8, Bool.and_eq_true, decide_eq_true_eq]
  omega

/-! ### Tasks -/

namespace TasksService

variable {letters : Letters} {query : FindTasksQueryDto} {w : World}

/-- No page is in the cache. -/
def Uncached (w : World) : Prop :=
  ∀ version page limit category difficulty search,
    w.cache (.taskList version page limit category difficulty search) = none

def matching (letters : Letters) (query : FindTasksQueryDto) (w : World) : List Task :=
  w.db.tasks.rows.filter (selects letters query)

/-- `a` may be what page `k + 1` returns. -/
def Returns (letters : Letters) (query : FindTasksQueryDto) (w : World) (k : Nat)
    (a : Paginated Task) : Prop :=
  ∃ w', Ends databaseUp (findAll letters (query.onPage k)) w (.ok a) w'

/-- Pages `1..totalPages` give each matching row exactly once, whatever each returns. -/
def PagesPartition (letters : Letters) (query : FindTasksQueryDto) (w : World) : Prop :=
  Partitions (Returns letters query w) Paginated.data (·.pages.totalPages)
    (matching letters query w)

/-- No two matching rows with one `createdAt` lie on either side of a page boundary. -/
def NoTieCut (letters : Letters) (query : FindTasksQueryDto) (w : World) : Prop :=
  NoTieAcross newestTaskFirst (query.limit.getD defaultLimit)
    (orderBy id newestTaskFirst (matching letters query w))

/-- PostgreSQL takes the search text, and Prisma the `skip` of each page. -/
def Readable (letters : Letters) (query : FindTasksQueryDto) (w : World) : Prop :=
  query.q.toList.all fitsText = true ∧
    SkipsFit (matching letters query w).length (query.limit.getD defaultLimit)

/-- What is asked of one page. -/
private def Reads (query : FindTasksQueryDto) (k : Nat) : Prop :=
  query.q.toList.all fitsText = true ∧
    fitsInt8 (skipOf (k + 1) (query.limit.getD defaultLimit)) = true

private theorem returns_every (k : Nat) (rank : Nat → Nat) (reads : Reads query k) :
    ∃ a, Returns letters query w k a ∧ a.data =
      window (skipOf (k + 1) (query.limit.getD defaultLimit)) (query.limit.getD defaultLimit)
        (orderBy rank newestTaskFirst (matching letters query w)) := by
  -- the cache fails at each of its three calls
  have page : Ends databaseUp (queryPage letters (query.onPage k) (k + 1)
      (query.limit.getD defaultLimit)) w (.ok ⟨findPage letters (query.onPage k) (k + 1)
        (query.limit.getD defaultLimit) rank w.db, ⟨countAll letters (query.onPage k) w.db, k + 1,
          query.limit.getD defaultLimit, totalPages (countAll letters (query.onPage k) w.db)
            (query.limit.getD defaultLimit)⟩⟩) w := by
    refine .bind (pageAndCount_ends rank (withTexts_eq_ok.mpr ⟨reads.1, ?_⟩)
      (withTexts_of_fits reads.1)) (.done _ _)
    exact withSkip_eq_ok.mpr ⟨reads.2, rfl⟩
  have stored := page.bind (f := fun result => (safeCacheSet (listCacheKey letters 0 (k + 1)
    (query.limit.getD defaultLimit) (query.onPage k)) result true).bind fun _ => .done result)
    (.await (.threw cacheDown) trivial (.done _ _))
  exact ⟨_, ⟨w, .await (.threw cacheDown) trivial (.await (.threw cacheDown) trivial stored)⟩, rfl⟩

/-- What an uncached page is: a window of a permitted answer, with the number of pages. -/
private def IsPage (letters : Letters) (query : FindTasksQueryDto) (w : World)
    (a : Paginated Task) : Prop :=
  (query.q.toList.all fitsText = true ∧ fitsInt8 (skipOf (query.page.getD defaultPage)
    (query.limit.getD defaultLimit)) = true) ∧
  a.pages.totalPages =
      totalPages (matching letters query w).length (query.limit.getD defaultLimit) ∧
    ∃ rank, a.data = findPage letters query (query.page.getD defaultPage)
      (query.limit.getD defaultLimit) rank w.db

private theorem findAll_wp (uncached : Uncached w) :
    wp databaseUp (findAll letters query)
      (onOk (fun a _ => IsPage letters query w a) fun _ _ => True) w := by
  -- the two queries, whatever the version of the lists is
  have page : ∀ version, wp databaseUp ((queryPage letters query (query.page.getD defaultPage)
      (query.limit.getD defaultLimit)).bind fun result =>
        (safeCacheSet (listCacheKey letters version (query.page.getD defaultPage)
          (query.limit.getD defaultLimit) query) result true).bind fun _ => .done result)
      (onOk (fun a _ => IsPage letters query w a) fun _ _ => True) w := by
    intro version
    unfold queryPage
    simp only [bind_eq, pure_eq, wp_bind, wp_done]
    refine pageAndCount_wp (fun i rows n hrows total => ?_) fun e => trivial
    obtain ⟨text, hrows⟩ := withTexts_eq_ok.mp hrows
    obtain ⟨skip, rfl⟩ := withSkip_eq_ok.mp hrows
    rw [withTexts_of_fits text] at total
    cases total
    have result : IsPage letters query w ⟨findPage letters query (query.page.getD defaultPage)
        (query.limit.getD defaultLimit) i.rank w.db, ⟨countAll letters query w.db,
          query.page.getD defaultPage, query.limit.getD defaultLimit, _⟩⟩ :=
      ⟨⟨text, skip⟩, rfl, i.rank, rfl⟩
    exact wp_safeCacheSet (fun _ _ => result) fun _ _ => result
  unfold findAll listVersion
  simp only [bind_eq, pure_eq, wp_bind, wp_done]
  refine wp_safeCacheGet (fun _ _ => ?_) fun _ _ => ?_
  all_goals
    dsimp only [onOk]
    refine wp_safeCacheGet (fun _ _ => ?_) fun _ _ => ?_
    · rw [uncached]
      exact page _
    · exact page _

private theorem returns_only (uncached : Uncached w) (k : Nat) (a : Paginated Task)
    (returns : Returns letters query w k a) : Reads query k ∧
      a.pages.totalPages =
        totalPages (matching letters query w).length (query.limit.getD defaultLimit) ∧
      ∃ rank, a.data = window (skipOf (k + 1) (query.limit.getD defaultLimit))
        (query.limit.getD defaultLimit)
        (orderBy rank newestTaskFirst (matching letters query w)) := by
  obtain ⟨w', ends⟩ := returns
  exact wp_ends (findAll_wp uncached) ends

theorem pagesPartition_iff (uncached : Uncached w) : PagesPartition letters query w ↔
    NoTieCut letters query w ∧ Readable letters query w := by
  have pages := answers_perm_iff (newestFirst_isPreorder Task.createdAt)
    (w.db.tasks.nodup.filter _) (limit_pos query.limitRange (show 0 < defaultLimit by decide))
    Paginated.data (·.pages.totalPages) (Reads query) (skipOf_mono _)
    (@returns_every letters query w) (returns_only uncached)
  refine pages.trans (and_congr_right fun _ => ?_)
  constructor
  · rintro ⟨zero, all⟩
    exact ⟨zero.1, fun k hk => ⟨(all k hk).1.2, (all k hk).2⟩⟩
  · rintro ⟨text, all⟩
    exact ⟨⟨text, skip_first _⟩, fun k hk => ⟨⟨text, (all k hk).1⟩, (all k hk).2⟩⟩

end TasksService

/-! ### Routines -/

namespace RoutinesService

variable {userId : Uuid} {query : FindRoutinesQueryDto} {w : World}

def matching (userId : Uuid) (query : FindRoutinesQueryDto) (w : World) : List Routine :=
  w.db.routines.rows.filter (selects userId query)

def Returns (userId : Uuid) (query : FindRoutinesQueryDto) (w : World) (k : Nat)
    (a : Paginated RoutineResponseDto) : Prop :=
  ∃ w', Ends databaseUp (findAll userId (query.onPage k)) w (.ok a) w'

def PagesPartition (userId : Uuid) (query : FindRoutinesQueryDto) (w : World) : Prop :=
  Partitions (Returns userId query w) (fun a => a.data.map (·.routine)) (·.pages.totalPages)
    (matching userId query w)

def NoTieCut (userId : Uuid) (query : FindRoutinesQueryDto) (w : World) : Prop :=
  NoTieAcross newestRoutineFirst (query.limit.getD defaultLimit)
    (orderBy id newestRoutineFirst (matching userId query w))

def Readable (userId : Uuid) (query : FindRoutinesQueryDto) (w : World) : Prop :=
  SkipsFit (matching userId query w).length (query.limit.getD defaultLimit)

private theorem routine_of_response (db : Db) (rows : List Routine) :
    (rows.map (toRoutineResponse db)).map (·.routine) = rows := by
  rw [List.map_map]
  exact List.map_id' rows

private theorem returns_every (k : Nat) (rank : Nat → Nat)
    (reads : fitsInt8 (skipOf (k + 1) (query.limit.getD defaultLimit)) = true) :
    ∃ a, Returns userId query w k a ∧ a.data.map (·.routine) =
      window (skipOf (k + 1) (query.limit.getD defaultLimit)) (query.limit.getD defaultLimit)
        (orderBy rank newestRoutineFirst (matching userId query w)) :=
  ⟨_, ⟨w, .bind (pageAndCount_ends rank (withSkip_eq_ok.mpr ⟨reads, rfl⟩) rfl) (.done _ _)⟩,
    routine_of_response w.db _⟩

private theorem returns_only (k : Nat) (a : Paginated RoutineResponseDto)
    (returns : Returns userId query w k a) :
    fitsInt8 (skipOf (k + 1) (query.limit.getD defaultLimit)) = true ∧
      a.pages.totalPages =
        totalPages (matching userId query w).length (query.limit.getD defaultLimit) ∧
      ∃ rank, a.data.map (·.routine) = window (skipOf (k + 1) (query.limit.getD defaultLimit))
        (query.limit.getD defaultLimit)
        (orderBy rank newestRoutineFirst (matching userId query w)) := by
  obtain ⟨w', ends⟩ := returns
  have page : wp databaseUp (findAll userId (query.onPage k)) (onOk (fun a _ =>
      fitsInt8 (skipOf (k + 1) (query.limit.getD defaultLimit)) = true ∧
        a.pages.totalPages =
          totalPages (matching userId query w).length (query.limit.getD defaultLimit) ∧
        ∃ rank, a.data.map (·.routine) = window (skipOf (k + 1) (query.limit.getD defaultLimit))
          (query.limit.getD defaultLimit)
          (orderBy rank newestRoutineFirst (matching userId query w))) fun _ _ => True) w := by
    unfold findAll
    simp only [bind_eq, pure_eq, wp_bind, wp_done]
    refine pageAndCount_wp (fun i rows n hrows total => ?_) fun e => trivial
    obtain ⟨skip, rfl⟩ := withSkip_eq_ok.mp hrows
    cases total
    exact ⟨skip, rfl, i.rank, routine_of_response w.db _⟩
  exact wp_ends page ends

theorem pagesPartition_iff : PagesPartition userId query w ↔
    NoTieCut userId query w ∧ Readable userId query w := by
  have pages := answers_perm_iff (newestFirst_isPreorder Routine.createdAt)
    (w.db.routines.nodup.filter (selects userId query))
    (limit_pos query.limitRange (show 0 < defaultLimit by decide))
    (fun a : Paginated RoutineResponseDto => a.data.map (·.routine)) (·.pages.totalPages)
    (fun k => fitsInt8 (skipOf (k + 1) (query.limit.getD defaultLimit)) = true)
    (skipOf_mono _) returns_every returns_only
  exact pages.trans (and_congr_right fun _ => and_iff_right (skip_first _))

end RoutinesService

/-! ### Practice sessions -/

namespace PracticeSessionsService

variable {userId : Uuid} {query : FindPracticeSessionsQueryDto} {w : World}

def matching (userId : Uuid) (w : World) : List PracticeSession :=
  w.db.practiceSessions.rows.filter (·.userId = userId)

def Returns (userId : Uuid) (query : FindPracticeSessionsQueryDto) (w : World) (k : Nat)
    (a : Paginated PracticeSessionResponseDto) : Prop :=
  ∃ w', Ends databaseUp (findAll userId (query.onPage k)) w (.ok a) w'

def PagesPartition (userId : Uuid) (query : FindPracticeSessionsQueryDto) (w : World) : Prop :=
  Partitions (Returns userId query w) (fun a => a.data.map (·.session)) (·.pages.totalPages)
    (matching userId w)

def NoTieCut (userId : Uuid) (query : FindPracticeSessionsQueryDto) (w : World) : Prop :=
  NoTieAcross newestSessionFirst (query.limit.getD defaultLimit)
    (orderBy id newestSessionFirst (matching userId w))

def Readable (userId : Uuid) (query : FindPracticeSessionsQueryDto) (w : World) : Prop :=
  SkipsFit (matching userId w).length (query.limit.getD defaultLimit)

private theorem session_of_response (db : Db) (rank : Nat → Nat) (rows : List PracticeSession) :
    (rows.map (db.withSessionTasks rank)).map (·.session) = rows := by
  rw [List.map_map]
  exact List.map_id' rows

private theorem returns_every (k : Nat) (rank : Nat → Nat)
    (reads : fitsInt8 (skipOf (k + 1) (query.limit.getD defaultLimit)) = true) :
    ∃ a, Returns userId query w k a ∧ a.data.map (·.session) =
      window (skipOf (k + 1) (query.limit.getD defaultLimit)) (query.limit.getD defaultLimit)
        (orderBy rank newestSessionFirst (matching userId w)) :=
  ⟨_, ⟨w, .bind (pageAndCount_ends rank (withSkip_eq_ok.mpr ⟨reads, rfl⟩) rfl) (.done _ _)⟩,
    session_of_response w.db rank _⟩

private theorem returns_only (k : Nat) (a : Paginated PracticeSessionResponseDto)
    (returns : Returns userId query w k a) :
    fitsInt8 (skipOf (k + 1) (query.limit.getD defaultLimit)) = true ∧
      a.pages.totalPages =
        totalPages (matching userId w).length (query.limit.getD defaultLimit) ∧
      ∃ rank, a.data.map (·.session) = window (skipOf (k + 1) (query.limit.getD defaultLimit))
        (query.limit.getD defaultLimit) (orderBy rank newestSessionFirst (matching userId w)) := by
  obtain ⟨w', ends⟩ := returns
  have page : wp databaseUp (findAll userId (query.onPage k)) (onOk (fun a _ =>
      fitsInt8 (skipOf (k + 1) (query.limit.getD defaultLimit)) = true ∧
        a.pages.totalPages =
          totalPages (matching userId w).length (query.limit.getD defaultLimit) ∧
        ∃ rank, a.data.map (·.session) = window (skipOf (k + 1) (query.limit.getD defaultLimit))
          (query.limit.getD defaultLimit)
          (orderBy rank newestSessionFirst (matching userId w))) fun _ _ => True) w := by
    unfold findAll
    simp only [bind_eq, pure_eq, wp_bind, wp_done]
    refine pageAndCount_wp (fun i rows n hrows total => ?_) fun e => trivial
    obtain ⟨skip, rfl⟩ := withSkip_eq_ok.mp hrows
    cases total
    exact ⟨skip, rfl, i.rank, session_of_response w.db i.rank _⟩
  exact wp_ends page ends

theorem pagesPartition_iff : PagesPartition userId query w ↔
    NoTieCut userId query w ∧ Readable userId query w := by
  have pages := answers_perm_iff (newestFirst_isPreorder PracticeSession.createdAt)
    (w.db.practiceSessions.nodup.filter (·.userId = userId))
    (limit_pos query.limitRange (show 0 < defaultLimit by decide))
    (fun a : Paginated PracticeSessionResponseDto => a.data.map (·.session))
    (·.pages.totalPages)
    (fun k => fitsInt8 (skipOf (k + 1) (query.limit.getD defaultLimit)) = true)
    (skipOf_mono _) returns_every returns_only
  exact pages.trans (and_congr_right fun _ => and_iff_right (skip_first _))

end PracticeSessionsService

/-- The pages of each list endpoint partition the matching rows exactly when no two rows with
one `createdAt` lie on either side of a page boundary and the database takes each page's query. -/
theorem pages_partition_iff (letters : Letters) (userId : Uuid) (tasks : FindTasksQueryDto)
    (routines : FindRoutinesQueryDto) (sessions : FindPracticeSessionsQueryDto) (w : World) :
    (TasksService.Uncached w →
        (TasksService.PagesPartition letters tasks w ↔
          TasksService.NoTieCut letters tasks w ∧ TasksService.Readable letters tasks w)) ∧
      (RoutinesService.PagesPartition userId routines w ↔
        RoutinesService.NoTieCut userId routines w ∧
          RoutinesService.Readable userId routines w) ∧
      (PracticeSessionsService.PagesPartition userId sessions w ↔
        PracticeSessionsService.NoTieCut userId sessions w ∧
          PracticeSessionsService.Readable userId sessions w) :=
  ⟨TasksService.pagesPartition_iff, RoutinesService.pagesPartition_iff,
    PracticeSessionsService.pagesPartition_iff⟩

section Sample

private def lower : Letters := ⟨id, id⟩

private def scale (id : Uuid) : Task := ⟨id, "Scales", none, none, none, none, none, 7, 7⟩

/-- Two tasks of one bulk creation. -/
private def bulk : World :=
  { World.empty with
    db := { Db.empty with tasks := ⟨[scale alice, scale bob], by decide⟩ } }

private def onePerPage : FindTasksQueryDto :=
  { page := none, limit := some 1, category := none, difficulty := none, q := none }

private theorem bulk_uncached : TasksService.Uncached bulk := fun _ _ _ _ _ _ => rfl

theorem pages_partition_iff_bulk :
    TasksService.PagesPartition lower onePerPage bulk ↔
      TasksService.NoTieCut lower onePerPage bulk ∧ TasksService.Readable lower onePerPage bulk :=
  (pages_partition_iff lower alice onePerPage { page := none, limit := none, status := none }
    { page := none, limit := none } bulk).1 bulk_uncached

/-- The second page may return the row of the first again. -/
theorem pages_not_partition :
    ¬((∀ letters query w, TasksService.Uncached w →
        TasksService.PagesPartition letters query w) ∧
      (∀ userId query w, RoutinesService.PagesPartition userId query w) ∧
      ∀ userId query w, PracticeSessionsService.PagesPartition userId query w) := by
  rintro ⟨claim, -, -⟩
  have partition := claim lower onePerPage bulk bulk_uncached
  have apart := ((TasksService.pagesPartition_iff bulk_uncached).mp partition).1 0 (by decide)
  revert apart
  decide +kernel

end Sample

end GuitarCoach
