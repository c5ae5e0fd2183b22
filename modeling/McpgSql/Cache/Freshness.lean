import Mathlib.Logic.Function.Basic
import McpgSql.Cache.Separation
import McpgSql.Library.Machine

/-!
# Fresh answers

A cache with `invalidate_on` mixes a version into its keys, and a watcher bumps the
version where its tracking query answers a new value. The steps of the calls (read
the version, `cache_get`, read the database, `cache_put`), of the watchers (query,
compare, bump), of commits and of registrations interleave in any order
(`cacheMachine`). The cache outlives a registration; the version starts again at 0.

The first poll sets its baseline in silence, so an entry from before it is served
after it (`stale_after_baseline`). Where a poll found a value other than the one
before it, no later call is answered by an entry of its registration that was read
before the change (`answers_fresh`):

* `Invalidator.freshAt`: how many commits the poll saw that began a version;
* `Later`: a version once begun keeps that number;
* `Inv`: an entry under a version was read after it began.
-/

namespace McpgSql.Cache

open Library

/-- The first column of the first row. -/
def firstScalar : List Value → Option Value
  | [] => none
  | .obj members :: _ => members.head?.map Prod.snd
  | other :: _ => some other

/-- A poll of the watcher: `began` and `seen` count the commits before it began and
before its query ran. -/
inductive Poll where
  | idle
  | begun (began : Nat)
  | answered (began seen : Nat) (rows : List Value)

/-- The watcher of one registration. How often the version was bumped, what the polls
saw that bumped it, and when the last successful poll began are kept beside it. -/
structure Invalidator where
  version : UInt64 := 0
  lastCursor : Option Value := none
  poll : Poll := .idle
  bumps : Nat := 0
  /-- The commits that were seen by the poll that began a version. -/
  freshAt : Nat → Nat := fun _ => 0
  polled : Nat := 0

namespace Invalidator

def bump (i : Invalidator) (seen : Nat) : Invalidator :=
  { i with
    version := i.version + 1
    bumps := i.bumps + 1
    freshAt := Function.update i.freshAt (i.bumps + 1) seen }

/-- The commits that the polls of this version have seen. -/
def fresh (i : Invalidator) : Nat := i.freshAt i.bumps

/-- A poll that was answered: a new value bumps the version, but not the first one. -/
def finish (i : Invalidator) (began seen : Nat) (rows : List Value) : Invalidator :=
  let cursor := firstScalar rows
  let i := { i with poll := .idle, polled := began }
  if cursor ≠ i.lastCursor then
    { (if i.lastCursor.isSome then i.bump seen else i) with lastCursor := cursor }
  else i

end Invalidator

/-- A cached response: the registration that stored it, after how many bumps, and the
commits before its rows were read. -/
structure Entry where
  registration : Nat
  bumps : Nat
  read : Nat
deriving DecidableEq

/-- Where a call is. -/
inductive Phase where
  | started
  | keyed (version : UInt64) (bumps : Nat)
  /-- No entry was found; without a key `cache_get` failed. -/
  | missed (key : Option String) (bumps : Nat)
  | read (key : Option String) (bumps : Nat) (read : Nat)

/-- A call that runs, of the registration it started in. `polled` and `since` are what
the polls had seen when it started, and those that bumped the version. -/
structure Flight where
  registration : Nat
  call : Call
  polled : Nat
  since : Nat
  phase : Phase := .started

/-- A call that was answered from the cache. -/
structure Answer where
  registration : Nat
  polled : Nat
  since : Nat
  bumps : Nat
  entry : Entry
deriving DecidableEq

structure World where
  /-- What the tracking query answers. -/
  tracking : List Value := []
  commits : Nat := 0
  /-- The last registration; those that are not made yet have a new watcher. -/
  current : Nat := 0
  invalidators : Nat → Invalidator := fun _ => {}
  flights : Nat → Option Flight := fun _ => none
  cache : String → Option Entry := fun _ => none
  answers : List Answer := []

inductive Action where
  /-- A commit that changes the tracking value. -/
  | commit (rows : List Value)
  /-- The binding is registered again. -/
  | register
  | pollBegin (g : Nat)
  | pollQuery (g : Nat)
  | pollFail (g : Nat)
  | pollFinish (g : Nat)
  | start (id : Nat) (call : Call)
  | readVersion (id : Nat)
  | cacheGet (id : Nat) (fails : Bool)
  | dbRead (id : Nat)
  | cachePut (id : Nat) (stored : Bool)
  /-- The call ends otherwise. -/
  | abort (id : Nat)
  /-- An entry expires. -/
  | expire (key : String)

namespace World

variable (lib : Lib) (w : World)

def setInvalidator (g : Nat) (i : Invalidator) : World :=
  { w with invalidators := Function.update w.invalidators g i }

theorem invalidators_setInvalidator (g : Nat) (i : Invalidator) :
    (w.setInvalidator g i).invalidators g = i :=
  Function.update_self ..

def setFlight (id : Nat) (f : Option Flight) : World :=
  { w with flights := Function.update w.flights id f }

/-- The key of a call under a version. -/
def keyOf (call : Call) (version : UInt64) : String := { call with version }.key lib

def next : Action → Option World
  | .commit rows =>
    if firstScalar rows ≠ firstScalar w.tracking then
      some { w with tracking := rows, commits := w.commits + 1 }
    else none
  | .register => some { w with current := w.current + 1 }
  | .pollBegin g =>
    if g ≤ w.current then match (w.invalidators g).poll with
      | .idle => some (w.setInvalidator g { w.invalidators g with poll := .begun w.commits })
      | _ => none
    else none
  | .pollQuery g => match (w.invalidators g).poll with
    | .begun began => some (w.setInvalidator g
        { w.invalidators g with poll := .answered began w.commits w.tracking })
    | _ => none
  | .pollFail g => match (w.invalidators g).poll with
    | .begun _ => some (w.setInvalidator g { w.invalidators g with poll := .idle })
    | _ => none
  | .pollFinish g => match (w.invalidators g).poll with
    | .answered began seen rows =>
      some (w.setInvalidator g ((w.invalidators g).finish began seen rows))
    | _ => none
  | .start id call => match w.flights id with
    | none => some (w.setFlight id (some
        { registration := w.current, call, polled := (w.invalidators w.current).polled
          since := (w.invalidators w.current).fresh }))
    | some _ => none
  | .readVersion id => (w.flights id).bind fun f => match f.phase with
    | .started => some (w.setFlight id (some { f with
        phase := .keyed (w.invalidators f.registration).version
          (w.invalidators f.registration).bumps }))
    | _ => none
  | .cacheGet id fails => (w.flights id).bind fun f => match f.phase with
    | .keyed version bumps =>
      if fails then some (w.setFlight id (some { f with phase := .missed none bumps }))
      else match w.cache (keyOf lib f.call version) with
        | some entry => some { w.setFlight id none with
            answers := ⟨f.registration, f.polled, f.since, bumps, entry⟩ :: w.answers }
        | none => some (w.setFlight id (some
            { f with phase := .missed (some (keyOf lib f.call version)) bumps }))
    | _ => none
  | .dbRead id => (w.flights id).bind fun f => match f.phase with
    | .missed key bumps =>
      some (w.setFlight id (some { f with phase := .read key bumps w.commits }))
    | _ => none
  | .cachePut id stored => (w.flights id).bind fun f => match f.phase with
    | .read (some key) bumps read => some { w.setFlight id none with
        cache := if stored then Function.update w.cache key (some ⟨f.registration, bumps, read⟩)
          else w.cache }
    | .read none _ _ => some (w.setFlight id none)
    | _ => none
  | .abort id => (w.flights id).map fun _ => w.setFlight id none
  | .expire key => some { w with cache := Function.update w.cache key none }

end World

/-- The runs of a binding's cache. -/
def cacheMachine (lib : Lib) : Machine World Action where
  init w := ∃ tracking, w = { tracking }
  step w a w' := w.next lib a = some w'

variable {lib : Lib}

/-- A key is stored under one version. -/
theorem version_of_key (hlib : lib.Lawful) {a b : Call} (h : a.key lib = b.key lib) :
    a.version = b.version := by
  have h := hlib.blake3_injective h
  -- The version is the last eight bytes, whatever stands before it.
  simp only [keyBytes, ← List.append_assoc, ← List.cons_append] at h
  have hversion := (List.append_inj' h (by simp [length_le64])).2
  exact le64_inj (List.cons.inj hversion).2

theorem version_of_keyOf (hlib : lib.Lawful) {a b : Call} {v v' : UInt64}
    (h : World.keyOf lib a v = World.keyOf lib b v') : v = v' :=
  version_of_key hlib h

/-! ## What the watchers keep -/

namespace Invalidator

/-- The version counts the bumps, and no poll saw a commit that was not made. -/
structure Ok (i : Invalidator) (commits : Nat) : Prop where
  version : i.version = UInt64.ofNat i.bumps
  freshAt : ∀ b ≤ i.bumps, i.freshAt b ≤ commits
  answered : ∀ {began seen rows}, i.poll = .answered began seen rows →
    i.fresh ≤ seen ∧ seen ≤ commits

/-- `i'` is `i` some steps later: the versions that began are as they were. -/
structure Later (i i' : Invalidator) : Prop where
  bumps : i.bumps ≤ i'.bumps
  freshAt : ∀ b ≤ i.bumps, i'.freshAt b = i.freshAt b
  fresh : i.fresh ≤ i'.fresh

variable {i : Invalidator} {commits : Nat}

theorem Later.refl (i : Invalidator) : Later i i := ⟨le_rfl, fun _ _ => rfl, le_rfl⟩

theorem Ok.mono {commits' : Nat} (h : i.Ok commits) (hle : commits ≤ commits') :
    i.Ok commits' where
  version := h.version
  freshAt b hb := (h.freshAt b hb).trans hle
  answered hpoll := ⟨(h.answered hpoll).1, (h.answered hpoll).2.trans hle⟩

theorem fresh_bump (i : Invalidator) (seen : Nat) : (i.bump seen).fresh = seen := by
  simp [fresh, bump]

theorem freshAt_bump {b : Nat} (seen : Nat) (hb : b ≤ i.bumps) :
    (i.bump seen).freshAt b = i.freshAt b :=
  Function.update_of_ne (by omega) _ _

/-- A bump begins a version that the poll's commits are fresh at. -/
theorem later_bump {seen : Nat} (h : i.fresh ≤ seen) : Later i (i.bump seen) where
  bumps := Nat.le_succ _
  freshAt _ hb := freshAt_bump seen hb
  fresh := by rw [fresh_bump]; exact h

theorem ok_bump {seen : Nat} (h : i.Ok commits) (hidle : i.poll = .idle) (hseen : seen ≤ commits) :
    (i.bump seen).Ok commits where
  version := by
    show i.version + 1 = UInt64.ofNat (i.bumps + 1)
    rw [h.version, UInt64.ofNat_add]
    rfl
  freshAt b hb := by
    rcases Nat.lt_or_ge i.bumps b with hlt | hge
    · obtain rfl : b = i.bumps + 1 := Nat.le_antisymm hb hlt
      exact (fresh_bump i seen).trans_le hseen
    · rw [freshAt_bump seen hge]
      exact h.freshAt b hge
  answered hpoll := by rw [show (i.bump seen).poll = i.poll from rfl, hidle] at hpoll; cases hpoll

/-- A poll that found another value than the one before it bumps the version, the
others change what it compares with. -/
theorem finish_eq (i : Invalidator) (began seen : Nat) (rows : List Value) :
    ∃ j cursor, i.finish began seen rows = { j with lastCursor := cursor } ∧
      (j = { i with poll := .idle, polled := began } ∨
        j = { i with poll := .idle, polled := began }.bump seen) := by
  rw [finish]
  by_cases hsome : i.lastCursor.isSome
  · by_cases hcursor : firstScalar rows = i.lastCursor
    · exact ⟨_, i.lastCursor, by simp [hcursor], .inl rfl⟩
    · exact ⟨_, firstScalar rows, by simp [hcursor, hsome], .inr rfl⟩
  · by_cases hcursor : firstScalar rows = i.lastCursor
    · exact ⟨_, i.lastCursor, by simp [hcursor], .inl rfl⟩
    · exact ⟨_, firstScalar rows, by simp [hcursor, hsome], .inl rfl⟩

theorem Ok.idle (h : i.Ok commits) (polled : Nat) :
    ({ i with poll := .idle, polled } : Invalidator).Ok commits where
  version := h.version
  freshAt := h.freshAt
  answered hpoll := by cases hpoll

theorem ok_finish {began seen : Nat} {rows : List Value} (h : i.Ok commits)
    (hseen : seen ≤ commits) : (i.finish began seen rows).Ok commits := by
  obtain ⟨j, cursor, heq, hj⟩ := i.finish_eq began seen rows
  have hok : j.Ok commits := by
    rcases hj with rfl | rfl
    · exact h.idle began
    · exact ok_bump (h.idle began) rfl hseen
  rw [heq]
  exact ⟨hok.version, hok.freshAt, hok.answered⟩

theorem later_finish {began seen : Nat} {rows : List Value} (hseen : i.fresh ≤ seen) :
    Later i (i.finish began seen rows) := by
  obtain ⟨j, cursor, heq, hj⟩ := i.finish_eq began seen rows
  have hlater : Later i j := by
    rcases hj with rfl | rfl
    · exact ⟨le_rfl, fun _ _ => rfl, le_rfl⟩
    · exact ⟨(later_bump hseen).bumps, (later_bump hseen).freshAt, (later_bump hseen).fresh⟩
  rw [heq]
  exact ⟨hlater.bumps, hlater.freshAt, hlater.fresh⟩

end Invalidator

/-! ## What the calls and the cache keep -/

section

variable (lib : Lib) (invalidators : Nat → Invalidator)

/-- A call looks no version up that began before it started, and its rows were read
after its version began. -/
def Flight.Ok (f : Flight) : Prop :=
  match f.phase with
  | .started => f.since ≤ (invalidators f.registration).fresh
  | .keyed version b => version = UInt64.ofNat b ∧ b ≤ (invalidators f.registration).bumps ∧
      f.since ≤ (invalidators f.registration).freshAt b
  | .missed key b => b ≤ (invalidators f.registration).bumps ∧
      ∀ k ∈ key, k = World.keyOf lib f.call (UInt64.ofNat b)
  | .read key b read => b ≤ (invalidators f.registration).bumps ∧
      (∀ k ∈ key, k = World.keyOf lib f.call (UInt64.ofNat b)) ∧
      (invalidators f.registration).freshAt b ≤ read

/-- The rows of an entry were read after its version began. -/
structure Entry.Ok (e : Entry) : Prop where
  bumps : e.bumps ≤ (invalidators e.registration).bumps
  freshAt : (invalidators e.registration).freshAt e.bumps ≤ e.read

/-- An answer is from an entry of the version that the call read. -/
structure Answer.Ok (a : Answer) : Prop where
  bumps : a.bumps ≤ (invalidators a.registration).bumps
  since : a.since ≤ (invalidators a.registration).freshAt a.bumps
  version : UInt64.ofNat a.bumps = UInt64.ofNat a.entry.bumps
  entry : a.entry.Ok invalidators

/-- What every step keeps. -/
structure World.Inv (w : World) : Prop where
  invalidators : ∀ g, (w.invalidators g).Ok w.commits
  flights : ∀ id, ∀ f ∈ w.flights id, f.Ok lib w.invalidators
  cache : ∀ key, ∀ e ∈ w.cache key, e.Ok w.invalidators ∧
    ∃ call, key = keyOf lib call (UInt64.ofNat e.bumps)
  answers : ∀ a ∈ w.answers, a.Ok w.invalidators

end

variable {is is' : Nat → Invalidator}

theorem later_update {g : Nat} {i : Invalidator} (h : (is g).Later i) (g' : Nat) :
    (is g').Later (Function.update is g i g') :=
  (Function.forall_update_iff is (fun g' i' => (is g').Later i')).mpr
    ⟨h, fun _ _ => .refl _⟩ g'

theorem Flight.Ok.later {f : Flight} (h : f.Ok lib is) (hl : ∀ g, (is g).Later (is' g)) :
    f.Ok lib is' := by
  have hl := hl f.registration
  unfold Flight.Ok at h ⊢
  split at h
  · exact h.trans hl.fresh
  · obtain ⟨hv, hb, hs⟩ := h
    exact ⟨hv, hb.trans hl.bumps, hl.freshAt _ hb ▸ hs⟩
  · exact ⟨h.1.trans hl.bumps, h.2⟩
  · obtain ⟨hb, hk, hr⟩ := h
    exact ⟨hb.trans hl.bumps, hk, hl.freshAt _ hb ▸ hr⟩

theorem Entry.Ok.later {e : Entry} (h : e.Ok is) (hl : ∀ g, (is g).Later (is' g)) : e.Ok is' where
  bumps := h.bumps.trans (hl _).bumps
  freshAt := (hl _).freshAt _ h.bumps ▸ h.freshAt

theorem Answer.Ok.later {a : Answer} (h : a.Ok is) (hl : ∀ g, (is g).Later (is' g)) :
    a.Ok is' where
  bumps := h.bumps.trans (hl _).bumps
  since := (hl _).freshAt _ h.bumps ▸ h.since
  version := h.version
  entry := h.entry.later hl

/-! ## Steps -/

namespace World.Inv

variable {w : World}

theorem init (tracking : List Value) : World.Inv lib { tracking } where
  invalidators _ := ⟨rfl, fun _ _ => le_rfl, fun hpoll => by cases hpoll⟩
  flights _ _ hf := by cases hf
  cache _ _ he := by cases he
  answers _ ha := by cases ha

/-- A watcher that goes on keeps what the calls and the cache rest on. -/
theorem setInvalidator (h : w.Inv lib) {g : Nat} {i : Invalidator} (hok : i.Ok w.commits)
    (hlater : (w.invalidators g).Later i) : (w.setInvalidator g i).Inv lib where
  invalidators := (Function.forall_update_iff w.invalidators
    (fun _ i' => i'.Ok w.commits)).mpr ⟨hok, fun g' _ => h.invalidators g'⟩
  flights id f hf := (h.flights id f hf).later (later_update hlater)
  cache key e he := ⟨(h.cache key e he).1.later (later_update hlater), (h.cache key e he).2⟩
  answers a ha := (h.answers a ha).later (later_update hlater)

theorem setFlight (h : w.Inv lib) {id : Nat} {f : Option Flight}
    (hf : ∀ f' ∈ f, f'.Ok lib w.invalidators) : (w.setFlight id f).Inv lib where
  invalidators := h.invalidators
  flights := (Function.forall_update_iff w.flights
    (fun _ f => ∀ f' ∈ f, f'.Ok lib w.invalidators)).mpr ⟨hf, fun id _ => h.flights id⟩
  cache := h.cache
  answers := h.answers

theorem setCache (h : w.Inv lib) {key : String} {e : Option Entry}
    (he : ∀ e' ∈ e, e'.Ok w.invalidators ∧ ∃ call, key = keyOf lib call (UInt64.ofNat e'.bumps)) :
    World.Inv lib { w with cache := Function.update w.cache key e } where
  invalidators := h.invalidators
  flights := h.flights
  cache := (Function.forall_update_iff w.cache (fun key e => ∀ e' ∈ e, e'.Ok w.invalidators ∧
    ∃ call, key = keyOf lib call (UInt64.ofNat e'.bumps))).mpr ⟨he, fun key _ => h.cache key⟩
  answers := h.answers

/-- A call that ends changes nothing that is kept. -/
theorem endFlight (h : w.Inv lib) (id : Nat) : (w.setFlight id none).Inv lib :=
  h.setFlight fun _ hf => by cases hf

/-- A poll that is not answered yet, or saw what is committed. -/
theorem setPoll (h : w.Inv lib) {g : Nat} {poll : Poll}
    (hpoll : ∀ {began seen rows}, poll = .answered began seen rows → seen = w.commits) :
    (w.setInvalidator g { w.invalidators g with poll }).Inv lib := by
  have hi := h.invalidators g
  refine h.setInvalidator ⟨hi.version, hi.freshAt, fun hp => ?_⟩ ⟨le_rfl, fun _ _ => rfl, le_rfl⟩
  obtain rfl := hpoll hp
  exact ⟨hi.freshAt _ le_rfl, le_rfl⟩

/-- A step of a call starts from what is kept of it. -/
theorem flight_of_bind (h : w.Inv lib) {id : Nat} {next : Flight → Option World} {w' : World}
    (hs : (w.flights id).bind next = some w') :
    ∃ f : Flight, f.Ok lib w.invalidators ∧ next f = some w' := by
  obtain ⟨f, hf, hs⟩ := Option.bind_eq_some_iff.mp hs
  exact ⟨f, h.flights id f hf, hs⟩

/-- A call that looks its key up, where it is answered by an entry of its version. -/
theorem cacheGet (hlib : lib.Lawful) (h : w.Inv lib) {id : Nat} {fails : Bool} {w' : World}
    (hs : w.next lib (.cacheGet id fails) = some w') : w'.Inv lib := by
  obtain ⟨f, hok, hs⟩ := h.flight_of_bind hs
  split at hs
  · rename_i version b hphase
    simp only [Flight.Ok, hphase] at hok
    obtain ⟨rfl, hb, hsince⟩ := hok
    split at hs
    · cases hs
      refine h.setFlight fun f' hf' => ?_
      cases hf'
      exact ⟨hb, fun _ hk => by cases hk⟩
    · split at hs
      · rename_i entry hentry
        obtain ⟨he, call, hkey⟩ := h.cache _ _ hentry
        cases hs
        have h' := h.endFlight id
        refine ⟨h'.invalidators, h'.flights, h'.cache, fun a ha => ?_⟩
        rcases List.mem_cons.mp ha with rfl | ha
        · exact ⟨hb, hsince, version_of_keyOf hlib hkey, he⟩
        · exact h.answers a ha
      · cases hs
        refine h.setFlight fun f' hf' => ?_
        cases hf'
        exact ⟨hb, fun k hk => (Option.mem_some.mp hk).symm⟩
  · cases hs

theorem cachePut (h : w.Inv lib) {id : Nat} {stored : Bool} {w' : World}
    (hs : w.next lib (.cachePut id stored) = some w') : w'.Inv lib := by
  obtain ⟨f, hok, hs⟩ := h.flight_of_bind hs
  split at hs
  · rename_i key b read hphase
    simp only [Flight.Ok, hphase] at hok
    obtain ⟨hb, hkey, hread⟩ := hok
    cases hs
    cases stored with
    | true =>
      refine (h.endFlight id).setCache fun e he => ?_
      cases he
      exact ⟨⟨hb, hread⟩, f.call, hkey key rfl⟩
    | false => exact h.endFlight id
  · cases hs
    exact h.endFlight id
  · cases hs

/-- Every step keeps the invariant. -/
theorem step (hlib : lib.Lawful) (h : w.Inv lib) {a : Action} {w' : World}
    (hs : w.next lib a = some w') : w'.Inv lib := by
  cases a with
  | commit rows =>
    simp only [World.next] at hs
    split at hs
    · cases hs
      exact ⟨fun g => (h.invalidators g).mono (Nat.le_succ _), h.flights, h.cache, h.answers⟩
    · cases hs
  | register =>
    cases hs
    exact ⟨h.invalidators, h.flights, h.cache, h.answers⟩
  | pollBegin g =>
    simp only [World.next] at hs
    split at hs
    · split at hs
      · cases hs
        exact h.setPoll fun hp => by cases hp
      · cases hs
    · cases hs
  | pollQuery g =>
    simp only [World.next] at hs
    split at hs
    · cases hs
      exact h.setPoll fun hp => by cases hp; rfl
    · cases hs
  | pollFail g =>
    simp only [World.next] at hs
    split at hs
    · cases hs
      exact h.setPoll fun hp => by cases hp
    · cases hs
  | pollFinish g =>
    simp only [World.next] at hs
    split at hs
    · rename_i began seen rows hpoll
      obtain ⟨hfresh, hseen⟩ := (h.invalidators g).answered hpoll
      cases hs
      exact h.setInvalidator (Invalidator.ok_finish (h.invalidators g) hseen)
        (Invalidator.later_finish hfresh)
    · cases hs
  | start id call =>
    simp only [World.next] at hs
    split at hs
    · cases hs
      refine h.setFlight fun f hf => ?_
      cases hf
      exact le_refl (w.invalidators w.current).fresh
    · cases hs
  | readVersion id =>
    obtain ⟨f, hok, hs⟩ := h.flight_of_bind hs
    split at hs
    · rename_i hphase
      simp only [Flight.Ok, hphase] at hok
      cases hs
      refine h.setFlight fun f' hf' => ?_
      cases hf'
      exact ⟨(h.invalidators f.registration).version, le_rfl, hok⟩
    · cases hs
  | cacheGet id fails => exact cacheGet hlib h hs
  | dbRead id =>
    obtain ⟨f, hok, hs⟩ := h.flight_of_bind hs
    split at hs
    · rename_i key b hphase
      simp only [Flight.Ok, hphase] at hok
      cases hs
      refine h.setFlight fun f' hf' => ?_
      cases hf'
      exact ⟨hok.1, hok.2, (h.invalidators f.registration).freshAt b hok.1⟩
    · cases hs
  | cachePut id stored => exact cachePut h hs
  | abort id =>
    obtain ⟨f, -, rfl⟩ := Option.map_eq_some_iff.mp hs
    exact h.endFlight id
  | expire key =>
    cases hs
    exact h.setCache fun _ he => by cases he

end World.Inv

/-- Every reachable state has the invariant. -/
theorem inv_of_reach (hlib : lib.Lawful) {w : World}
    (h : (cacheMachine lib).Reach (fun _ _ => True) w) : w.Inv lib :=
  h.invariant (fun ⟨tracking, hw⟩ => hw ▸ World.Inv.init tracking)
    fun _ hs hinv => hinv.step hlib hs

/-- A step changes a watcher by its poll. -/
theorem invalidators_of_next {w w' : World} {a : Action} (hs : w.next lib a = some w') :
    w'.invalidators = w.invalidators ∨
      (∃ g poll, w'.invalidators = Function.update w.invalidators g
        { w.invalidators g with poll }) ∨
      ∃ g began seen rows, (w.invalidators g).poll = .answered began seen rows ∧
        w'.invalidators = Function.update w.invalidators g
          ((w.invalidators g).finish began seen rows) := by
  cases a with
  | pollBegin g | pollQuery g | pollFail g | pollFinish g =>
    grind [World.next, World.setInvalidator]
  | commit rows | register | start id call | expire key => grind [World.next, World.setFlight]
  | readVersion id | cacheGet id fails | dbRead id | cachePut id stored =>
    obtain ⟨f, -, hs⟩ := Option.bind_eq_some_iff.mp hs
    grind [World.setFlight]
  | abort id =>
    obtain ⟨f, -, rfl⟩ := Option.map_eq_some_iff.mp hs
    exact .inl rfl

/-- A watcher goes on with every step. -/
theorem World.Inv.later {w w' : World} {a : Action} (h : w.Inv lib)
    (hs : w.next lib a = some w') (g : Nat) : (w.invalidators g).Later (w'.invalidators g) := by
  rcases invalidators_of_next hs with heq | ⟨g', poll, heq⟩ | ⟨g', began, seen, rows, hpoll, heq⟩
  · rw [heq]
    exact .refl _
  · have hpoll : (w.invalidators g').Later { w.invalidators g' with poll } :=
      ⟨le_rfl, fun _ _ => rfl, le_rfl⟩
    rw [heq]
    exact later_update hpoll g
  · rw [heq]
    exact later_update (Invalidator.later_finish ((h.invalidators g').answered hpoll).1) g

/-- What the polls have seen that bumped the version only grows. -/
theorem World.Inv.fresh_le_run (hlib : lib.Lawful) {w w' : World} {actions : List Action}
    (h : w.Inv lib) (hrun : Machine.run (World.next lib) w actions = some w') (g : Nat) :
    (w.invalidators g).fresh ≤ (w'.invalidators g).fresh := by
  induction actions generalizing w with
  | nil =>
    cases hrun
    exact le_rfl
  | cons a actions ih =>
    obtain ⟨w₁, hs, hrun⟩ := Option.bind_eq_some_iff.mp hrun
    exact (h.later hs g).fresh.trans (ih (h.step hlib hs) hrun)

/-- A poll that found another value than the one before it is one of those. -/
theorem Invalidator.fresh_finish {i : Invalidator} {began seen : Nat} {rows : List Value}
    {last : Value} (hlast : i.lastCursor = some last) (hnew : firstScalar rows ≠ some last) :
    (i.finish began seen rows).fresh = seen := by
  have heq : i.finish began seen rows =
      { ({ i with poll := .idle, polled := began } : Invalidator).bump seen with
        lastCursor := firstScalar rows } := by
    simp [finish, hlast, hnew]
  rw [heq]
  exact fresh_bump _ seen

/-! ## Answers -/

/-- Once a poll has finished that found another value than the one before it, no call
of its registration that starts later is answered by an entry of the registration
that was read before a commit that the poll saw. -/
theorem answers_fresh (hlib : lib.Lawful) {w : World}
    (h : (cacheMachine lib).Reach (fun _ _ => True) w) :
    (∀ g began seen rows last, (w.invalidators g).poll = .answered began seen rows →
      (w.invalidators g).lastCursor = some last → firstScalar rows ≠ some last →
      ∀ later w', Machine.run (World.next lib) w (.pollFinish g :: later) = some w' →
        seen ≤ (w'.invalidators g).fresh) ∧
    ∀ a ∈ w.answers, a.entry.registration = a.registration →
      (w.invalidators a.registration).bumps < 2 ^ 64 → a.since ≤ a.entry.read := by
  have hinv := inv_of_reach hlib h
  constructor
  · intro g began seen rows last hpoll hlast hnew later w' hrun
    obtain ⟨w₁, hs, hrun⟩ := Option.bind_eq_some_iff.mp hrun
    have hle := (hinv.step hlib hs).fresh_le_run hlib hrun g
    simp only [World.next, hpoll, Option.some.injEq] at hs
    rwa [← hs, World.invalidators_setInvalidator, Invalidator.fresh_finish hlast hnew] at hle
  · intro a ha hreg hbumps
    obtain ⟨hb, hsince, hversion, he⟩ := hinv.answers a ha
    have hle := he.bumps
    rw [hreg] at hle
    have heq : a.bumps = a.entry.bumps := by
      have := congrArg UInt64.toNat hversion
      rwa [UInt64.toNat_ofNat_of_lt' (hb.trans_lt hbumps),
        UInt64.toNat_ofNat_of_lt' (hle.trans_lt hbumps)] at this
    calc a.since
        ≤ (w.invalidators a.registration).freshAt a.bumps := hsince
      _ = (w.invalidators a.entry.registration).freshAt a.entry.bumps := by rw [hreg, heq]
      _ ≤ a.entry.read := he.freshAt

/-! ## Two runs -/

/-- A poll of the first registration. -/
def pollRun : List Action := [.pollBegin 0, .pollQuery 0, .pollFinish 0]

/-- A call that finds no entry and stores one. -/
def storeRun (id : Nat) (call : Call) : List Action :=
  [.start id call, .readVersion id, .cacheGet id false, .dbRead id, .cachePut id true]

/-- A call that is looked up. -/
def lookupRun (id : Nat) (call : Call) : List Action :=
  [.start id call, .readVersion id, .cacheGet id false]

/-- The state after the actions, where the tracking query answers 1 first. -/
def afterRun (actions : List Action) : Option World :=
  Machine.run (World.next plainLib) { tracking := [.ofNat 1] } actions

theorem reach_afterRun {actions : List Action} {w : World} (h : afterRun actions = some w) :
    (cacheMachine plainLib).Reach (fun _ _ => True) w :=
  (Machine.Reach.init (M := cacheMachine plainLib) ⟨[.ofNat 1], rfl⟩).run
    (fun _ hs => hs) (fun _ _ _ => trivial) h

def acmeCall : Call := ordersCall "acme" "u1" []

/-- The first poll comes before the commit: the entry was read after it. -/
def freshRun : List Action :=
  pollRun ++ .commit [.ofNat 2] :: pollRun ++ storeRun 0 acmeCall ++ lookupRun 1 acmeCall

theorem freshRun_answers : ∃ w, afterRun freshRun = some w ∧
    w.answers = [⟨0, 1, 1, 1, ⟨0, 1, 1⟩⟩] ∧ (w.invalidators 0).bumps = 1 := by
  obtain ⟨w, hw, h⟩ := Option.any_eq_true _ _ |>.mp
    (show (afterRun freshRun).any (fun w => w.answers = [⟨0, 1, 1, 1, ⟨0, 1, 1⟩⟩] ∧
      (w.invalidators 0).bumps = 1) by decide)
  exact ⟨w, hw, by simpa using h⟩

/-- The entry and the poll of `freshRun`. -/
theorem freshRun_fresh : ∃ w, afterRun freshRun = some w ∧
    ∃ a ∈ w.answers, a.entry.registration = a.registration ∧ a.since = 1 ∧
      a.since ≤ a.entry.read := by
  obtain ⟨w, hw, hanswers, hbumps⟩ := freshRun_answers
  have hmem : (⟨0, 1, 1, 1, ⟨0, 1, 1⟩⟩ : Answer) ∈ w.answers := by simp [hanswers]
  exact ⟨w, hw, _, hmem, rfl, rfl, (answers_fresh plainLib_lawful (reach_afterRun hw)).2 _ hmem rfl
    (by rw [hbumps]; decide)⟩

/-- The commit comes before the first poll, which bumps nothing. -/
def staleRun : List Action :=
  storeRun 0 acmeCall ++ .commit [.ofNat 2] :: pollRun ++ lookupRun 1 acmeCall

/-- An entry that was read before a commit is served after a poll that began after
the commit. -/
theorem stale_after_baseline :
    ¬∀ w, (cacheMachine plainLib).Reach (fun _ _ => True) w →
      ∀ a ∈ w.answers, a.polled ≤ a.entry.read := by
  intro h
  obtain ⟨w, hw, hanswers⟩ := Option.any_eq_true _ _ |>.mp
    (show (afterRun staleRun).any (fun w => w.answers = [⟨0, 1, 0, 0, ⟨0, 0, 0⟩⟩]) by
      decide)
  have := h w (reach_afterRun hw) ⟨0, 1, 0, 0, ⟨0, 0, 0⟩⟩ (by simp [of_decide_eq_true hanswers])
  exact absurd this (by decide)

end McpgSql.Cache
