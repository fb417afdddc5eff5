/- digest: Every request of the backend, and the runs in which any number of them interleave. -/

import GuitarCoach.Ai.CoachTools
import GuitarCoach.Ai.PracticePlanner
import GuitarCoach.Requests
import GuitarCoach.Users.UsersService
import GuitarCoach.WeeklyRoutineCleanup.WeeklyRoutineCleanupService

/-!
A run of the backend interleaves requests of any users, of admins and of the weekly job. What
Better Auth does to the tables, what the cache forgets and what others put into the bucket are
acts of the surroundings.
-/

set_option autoImplicit false
set_option relaxedAutoImplicit false

namespace GuitarCoach

open Async (Run)
open Relational (Table)

inductive ServiceRequest
  | user (userId : Uuid) (request : UserRequest)
  | planner (userId : Uuid) (dto : AiPracticePlanner.PracticePlannerRequestDto)
  | coach (userId : Uuid) (message : String) (session : AiRoutineCoach.AgentSession)
  | uploadAvatar (userId : Uuid) (file : UploadedFile)
  | getAvatarUrl (userId : Uuid)
  | removeAvatar (userId : Uuid)
  | deleteAccount (userId : Uuid)
  | createTask (dto : CreateTaskDto)
  | createTasks (dtos : List CreateTaskDto)
  | updateTask (id : String) (dto : UpdateTaskDto)
  | removeTask (id : String)
  | removeUser (id : String)
  | weeklyCleanup (cleanup : CleanupSettings) (now : Instant)

namespace ServiceRequest

abbrev Result : ServiceRequest → Type
  | user _ request => request.Result
  | planner .. => AiPracticePlanner.PracticePlannerResponse
  | coach .. => List (Option AiRoutineCoach.CallResult) ×
      Except Failure AiRoutineCoach.RoutineCoachResponseDto
  | uploadAvatar .. => SignedUrl
  | getAvatarUrl _ => SignedUrl
  | removeAvatar _ => Unit
  | deleteAccount _ => Unit
  | createTask _ => Task
  | createTasks _ => List Task
  | updateTask .. => Task
  | removeTask _ => Unit
  | removeUser _ => Unit
  | weeklyCleanup .. => WeeklyRoutineCleanupResult

def run (settings : Settings) : (q : ServiceRequest) → Promise q.Result
  | user userId request => request.run settings userId
  | planner userId dto => AiPracticePlanner.handleRequest userId dto
  | coach userId message session =>
      AiRoutineCoach.converse settings.letters userId message session
  | uploadAvatar userId file => AvatarService.upload settings.signedUrlSeconds userId file
  | getAvatarUrl userId => AvatarService.getUrl settings.signedUrlSeconds userId
  | removeAvatar userId => AvatarService.remove userId
  | deleteAccount userId => UsersService.deleteAccount userId
  | createTask dto => TasksService.create dto
  | createTasks dtos => TasksService.createMany dtos
  | updateTask id dto => TasksService.update id dto
  | removeTask id => TasksService.remove id
  | removeUser id => UsersService.remove id
  | weeklyCleanup cleanup now => WeeklyRoutineCleanupService.run cleanup now

end ServiceRequest

/-- What a request of a run gives out. -/
abbrev Reply := (q : ServiceRequest) × q.Result

/-- The request, with its result among those of all requests. -/
def ServiceRequest.reply (settings : Settings) (q : ServiceRequest) : Promise Reply := do
  return ⟨q, ← q.run settings⟩

/-- What happens beside the requests. -/
inductive Surroundings
  | signUp (user : User)
  | updateUser (id : Uuid) (image : Option String)
  | removeUser (id : Uuid)
  | signIn (session : Session)
  | signOut (id : Uuid)
  | linkAccount (account : Account)
  | unlinkAccount (id : Uuid)
  | forget (key : CacheKey)
  | storeObject (name : String)
  | loseObject (name : String)

/-- A user is there, and no open transaction has deleted them. -/
def World.keepsUser (w : World) (userId : Uuid) : Bool :=
  w.db.users.has userId && w.unlocked none { users := [userId] }

namespace Surroundings

theorem id_updated (image : Option String) (a : User) : ({ a with image } : User).id = a.id := rfl

/-- An act on a user waits for a transaction that has deleted them; a taken key is refused, and so
is the removal of a user whom other rows than sign-ins and accounts refer to. -/
def act : Surroundings → World → World
  | signUp user, w =>
    match w.db.users.insert user with
    | none => w
    | some users => { w with db := { w.db with users } }
  | updateUser id image, w =>
    if w.keepsUser id then
      { w with db := { w.db with
        users := w.db.users.updateWhere (·.id = id) (fun a => { a with image })
          (id_updated image) } }
    else w
  | removeUser id, w =>
    if w.keepsUser id then
      match w.db.delete { users := [id] } with
      | .ok db => { w with db }
      | .error _ => w
    else w
  | signIn session, w =>
    match w.db.sessions.insert session with
    | none => w
    | some sessions =>
      if w.keepsUser session.userId then { w with db := { w.db with sessions } } else w
  | signOut id, w => { w with db := { w.db with sessions := w.db.sessions.deleteWhere (·.id = id) } }
  | linkAccount account, w =>
    match w.db.accounts.insert account with
    | none => w
    | some accounts =>
      if w.keepsUser account.userId then { w with db := { w.db with accounts } } else w
  | unlinkAccount id, w =>
    { w with db := { w.db with accounts := w.db.accounts.deleteWhere (·.id = id) } }
  | forget key, w => { w with cache := Function.update w.cache key none }
  | storeObject name, w => { w with bucket := insert name w.bucket }
  | loseObject name, w => { w with bucket := w.bucket.erase name }

end Surroundings

abbrev Backend := Run World Input Failure Label Surroundings Reply

/-- The ids that rows are known by. -/
def Db.HasId (db : Db) (id : Uuid) : Prop :=
  db.users.has id ∨ db.tasks.has id ∨ db.routines.has id ∨ db.practiceSessions.has id ∨
    db.recordings.has id

/-- The calls that add rows, which get their ids with the answer. -/
def Label.adds : Label → Bool
  | .db _ .create => true
  | .db _ .transaction => true
  | _ => false

/-- A run of the backend from its empty state, in which no id is given out twice. -/
structure BackendRun (settings : Settings) (request : Nat → ServiceRequest) (r : Backend) : Prop where
  requests : ∀ i, r.requests i = (request i).reply settings
  outside : r.outside = Surroundings.act
  start : r.start = World.empty
  rowIds : ∀ i t l x, r.CallsAt i t l (.took x) → l.adds = true →
    ∀ n, ∀ s ≤ t, ¬(r.state s).db.HasId (x.uuid n)
  userIds : ∀ t user, r.schedule t = .outside (.signUp user) →
    ∀ s ≤ t, ¬(r.state s).db.HasId user.id

/-! ### A short run -/

def plainSettings : Settings := ⟨⟨id, id⟩, 900⟩

def fourthId : Uuid := ⟨"c2a7f4d9-5e1b-4a60-9d37-8b6c1e0f2a43", by decide⟩

def fifthId : Uuid := ⟨"e81b3c5a-96d2-4f07-b4ac-2d7e9f601c58", by decide⟩

def sixthId : Uuid := ⟨"4a9d0e7f-c135-4b82-86fe-7c3a5d9b2e10", by decide⟩

def seventhId : Uuid := ⟨"0f5b6c2d-48e7-4913-a1cb-d94e7a80f362", by decide⟩

def briefStayRequest : Nat → ServiceRequest
  | 0 => .user bob (.createRoutine ⟨"Chord changes", .absent, .absent⟩)
  | 1 => .user alice (.createRoutine ⟨"Scales", .absent, .absent⟩)
  | 2 => .createTask ⟨"Fretting", .absent, .absent, .absent, .absent⟩
  | 3 => .user alice (.addRoutineTask secondId.text ⟨thirdId.text, .absent, .absent⟩)
  | 4 => .user alice (.createSession ⟨.absent, .absent, .value secondId.text,
      .value [⟨thirdId.text, .absent, .absent⟩]⟩)
  | 5 => .user alice (.uploadRecording fifthId.text ⟨"take.webm", "audio/webm", 3⟩)
  | 6 => .deleteAccount alice
  | 7 => .removeUser alice.text
  | 8 => .user alice (.createSession ⟨.absent, .absent, .value secondId.text, .absent⟩)
  | _ => .updateTask thirdId.text ⟨some "Fretting hand", .absent, .absent, .absent, none⟩

/-- The calls that are answered, by request, each with the id it is given. -/
def briefStayCalls : List (Nat × Uuid) :=
  [(0, firstId), (1, secondId), (2, thirdId)] ++ List.replicate 4 (3, fourthId) ++
    List.replicate 3 (4, fifthId) ++ List.replicate 7 (5, sixthId) ++
    -- both deletions are under way until the first commits; the session waits for it
    [6, 7, 8, 6, 7, 6, 6, 9, 7, 6, 6, 6, 6, 6, 6, 8, 6, 7, 7, 7, 7, 7, 7, 7, 7, 8, 6].map
      (·, seventhId)

/-- Alice and Bob sign up, Bob makes a routine, and Alice a routine with a task, a session and a
recording. She deletes her account while an admin removes it too, another admin rewords the task
and a second session of hers is being logged. -/
def briefStay : Backend where
  requests i := (briefStayRequest i).reply plainSettings
  outside := Surroundings.act
  start := .empty
  schedule t :=
    if t = 0 then .outside (.signUp ⟨alice, none⟩)
    else if t = 1 then .outside (.signUp ⟨bob, none⟩)
    else if t < 12 then .begin (t - 2)
    else match briefStayCalls[t - 12]? with
      | some (i, id) => .advance i (.took (.of id 0))
      | none => .begin 0

theorem briefStay_calls {i t : Nat} {l : Label} {x : Async.Answer Input Failure}
    (called : briefStay.CallsAt i t l x) :
    12 ≤ t ∧ ∃ id, briefStayCalls[t - 12]? = some (i, id) ∧ x = .took (.of id 0) := by
  have scheduled := called.schedule
  simp only [briefStay] at scheduled
  split_ifs at scheduled with _ _ early
  cases listed : briefStayCalls[t - 12]? with
  | none => simp [listed] at scheduled
  | some call =>
    obtain ⟨who, id⟩ := call
    simp only [listed, Async.Choice.advance.injEq] at scheduled
    obtain ⟨rfl, answer⟩ := scheduled
    exact ⟨by omega, id, rfl, answer.symm⟩

theorem briefStay_outside {t : Nat} {a : Surroundings} (acts : briefStay.schedule t = .outside a) :
    t = 0 ∧ a = .signUp ⟨alice, none⟩ ∨ t = 1 ∧ a = .signUp ⟨bob, none⟩ := by
  simp only [briefStay] at acts
  split_ifs at acts with first second
  · exact .inl ⟨first, (Async.Choice.outside.inj acts).symm⟩
  · exact .inr ⟨second, (Async.Choice.outside.inj acts).symm⟩
  · cases listed : briefStayCalls[t - 12]? with
    | none => simp [listed] at acts
    | some call => simp [listed] at acts

private theorem briefStay_fresh :
    ∀ n < 44, ∀ c ∈ briefStayCalls[n]?, (briefStay.awaited c.1 (n + 12)).any Label.adds = true →
      ∀ s ≤ n + 12, ¬(briefStay.state s).db.HasId c.2 := by
  unfold Db.HasId
  decide +kernel

theorem briefStay_run : BackendRun plainSettings briefStayRequest briefStay where
  requests _ := rfl
  outside := rfl
  start := rfl
  rowIds i t l x called adds n s hs := by
    obtain ⟨started, id, call, answer⟩ := briefStay_calls called
    cases answer
    have awaits := (Run.callsAt_iff.mp called).1
    obtain ⟨before, -⟩ := List.getElem?_eq_some_iff.mp call
    have length : briefStayCalls.length = 44 := by decide
    have moment : t - 12 + 12 = t := Nat.sub_add_cancel started
    refine briefStay_fresh (t - 12) (by omega) (i, id) call ?_ s (by omega)
    rw [moment, awaits]
    exact adds
  userIds t user signsUp s hs := by
    have free : ∀ s ≤ 1, ¬(briefStay.state s).db.HasId bob := by
      unfold Db.HasId
      decide +kernel
    have unknown : ¬(briefStay.state 0).db.HasId alice := by
      unfold Db.HasId
      decide +kernel
    rcases briefStay_outside signsUp with ⟨rfl, hers⟩ | ⟨rfl, his⟩
    · cases hers
      obtain rfl : s = 0 := by omega
      exact unknown
    · cases his
      exact free s hs

end GuitarCoach
