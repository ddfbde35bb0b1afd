import Mathlib.Data.List.TakeWhile
import Mathlib.Data.Set.Function
import CixCache.Lib.Sorting

/-!
Contract: moving the entries of a map to the targets of their keys, one after another.

Owns: `moveEntry` and `Placed`, a map and the one it became by moving entries; `relocate`,
the step that leaves an entry whose target is taken and moves it otherwise; `relocateAll`,
the run over a list of keys; `Relocated`, what the map and both counts are after any
number of steps, and which entries have moved; and when the order of the keys decides
nothing.

Does not own: what the keys, the entries and the targets are.
-/

namespace CixCache.Lib

variable {α β : Type} [DecidableEq α]

/-! ## Moving one entry -/

def moveEntry (entries : α → Option β) (key target : α) : α → Option β :=
  Function.update (Function.update entries key none) target (entries key)

section Moving

variable {start entries : α → Option β} {key target other : α}

@[simp] theorem moveEntry_target : moveEntry entries key target target = entries key :=
  Function.update_self _ _ _

theorem moveEntry_key (astray : target ≠ key) : moveEntry entries key target key = none := by
  rw [moveEntry, Function.update_of_ne astray.symm, Function.update_self]

theorem moveEntry_of_ne (notTarget : other ≠ target) (notKey : other ≠ key) :
    moveEntry entries key target other = entries other := by
  rw [moveEntry, Function.update_of_ne notTarget, Function.update_of_ne notKey]

/-- The entries of `start`, each at its place and no two at one. -/
structure Placed (start entries : α → Option β) (place : α → α) : Prop where
  injective : Set.InjOn place {key | (start key).isSome}
  kept : ∀ key, (start key).isSome → entries (place key) = start key
  covered : ∀ key, (entries key).isSome → ∃ origin, (start origin).isSome ∧ place origin = key

variable {place : α → α}

omit [DecidableEq α] in
theorem Placed.refl (start : α → Option β) : Placed start start id where
  injective _ _ _ _ same := same
  kept _ _ := rfl
  covered key present := ⟨key, present, rfl⟩

omit [DecidableEq α] in
/-- Entries stand where their keys are placed. -/
theorem Placed.bijOn (placed : Placed start entries place) :
    Set.BijOn place {key | (start key).isSome} {key | (entries key).isSome} := by
  refine ⟨?_, placed.injective, placed.covered⟩
  intro key present
  show (entries (place key)).isSome
  rw [placed.kept key present]
  exact present

omit [DecidableEq α] in
/-- Where absent keys are placed does not matter. -/
theorem Placed.congr {final : α → α} (placed : Placed start entries place)
    (agrees : ∀ key, (start key).isSome → final key = place key) :
    Placed start entries final where
  injective := by
    intro left leftPresent right rightPresent same
    rw [agrees left leftPresent, agrees right rightPresent] at same
    exact placed.injective leftPresent rightPresent same
  kept := by
    intro key present
    rw [agrees key present]
    exact placed.kept key present
  covered := by
    intro key present
    obtain ⟨origin, originPresent, same⟩ := placed.covered key present
    exact ⟨origin, originPresent, (agrees origin originPresent).trans same⟩

omit [DecidableEq α] in
/-- An empty place is nobody's. -/
theorem Placed.ne_of_empty (placed : Placed start entries place) (empty : entries target = none)
    (present : (start key).isSome) : place key ≠ target := by
  intro same
  have kept := placed.kept key present
  rw [same, empty] at kept
  rw [← kept] at present
  contradiction

/-- An entry that moves to an empty place overwrites none. -/
theorem Placed.move (placed : Placed start entries place) (present : (start key).isSome)
    (own : place key = key) (empty : entries target = none) (astray : target ≠ key) :
    Placed start (moveEntry entries key target) (Function.update place key target) where
  injective := by
    intro left leftPresent right rightPresent same
    by_cases leftKey : left = key
    · by_cases rightKey : right = key
      · rw [leftKey, rightKey]
      · rw [leftKey, Function.update_self, Function.update_of_ne rightKey] at same
        exact absurd same.symm (placed.ne_of_empty empty rightPresent)
    · rw [Function.update_of_ne leftKey] at same
      by_cases rightKey : right = key
      · rw [rightKey, Function.update_self] at same
        exact absurd same (placed.ne_of_empty empty leftPresent)
      · rw [Function.update_of_ne rightKey] at same
        exact placed.injective leftPresent rightPresent same
  kept := by
    intro origin originPresent
    by_cases same : origin = key
    · have kept := placed.kept key present
      rw [own] at kept
      rw [same, Function.update_self, moveEntry_target, kept]
    · have notKey : place origin ≠ key := by
        intro taken
        exact same (placed.injective originPresent present (taken.trans own.symm))
      rw [Function.update_of_ne same,
        moveEntry_of_ne (placed.ne_of_empty empty originPresent) notKey]
      exact placed.kept origin originPresent
  covered := by
    intro found foundPresent
    by_cases atTarget : found = target
    · exact ⟨key, present, by rw [Function.update_self, atTarget]⟩
    · have left : found ≠ key := by
        intro same
        rw [same, moveEntry_key astray] at foundPresent
        contradiction
      rw [moveEntry_of_ne atTarget left] at foundPresent
      obtain ⟨origin, originPresent, same⟩ := placed.covered found foundPresent
      refine ⟨origin, originPresent, ?_⟩
      rw [Function.update_of_ne, same]
      intro originKey
      rw [originKey, own] at same
      exact left same.symm

end Moving

/-! ## Keys before a key -/

/-- The keys of a list before the first occurrence of one. -/
def earlier (keys : List α) (key : α) : List α := keys.takeWhile fun other => other != key

section Earlier

variable {keys : List α} {key : α}

/-- Later keys do not count. -/
theorem earlier_append (member : key ∈ keys) (rest : List α) :
    earlier (keys ++ rest) key = earlier keys key := by
  rw [earlier, List.takeWhile_append, if_neg, earlier]
  intro whole
  have same := (List.takeWhile_prefix _).eq_of_length whole
  simpa using List.takeWhile_eq_self_iff.mp same key member

/-- All keys are before one that follows them first. -/
theorem earlier_concat (fresh : key ∉ keys) : earlier (keys ++ [key]) key = keys := by
  have kept : ∀ other ∈ keys, (other != key) = true := by
    intro other member
    rw [bne_iff_ne]
    exact fun same => fresh (same ▸ member)
  rw [earlier, List.takeWhile_append_of_pos kept, List.takeWhile_cons_of_neg (by simp),
    List.append_nil]

/-- Leaving out other keys leaves them out before the key. -/
theorem earlier_filter {chosen : α → Bool} (isChosen : chosen key = true) :
    earlier (keys.filter chosen) key = (earlier keys key).filter chosen := by
  have same : (fun other => !chosen other || other != key) = fun other => other != key := by
    funext other
    by_cases own : other = key
    · rw [own, isChosen]
      rfl
    · simp [own]
  rw [earlier, List.takeWhile_filter, same, earlier]

end Earlier

/-! ## Moving the entries of a list -/

/-- A map and the entries moved and left in place so far. -/
structure Relocation (α β : Type) where
  entries : α → Option β
  moved : Nat
  stayed : Nat

def relocate (target : α → α) (run : Relocation α β) (key : α) : Relocation α β :=
  if (run.entries (target key)).isSome then { run with stayed := run.stayed + 1 }
  else ⟨moveEntry run.entries key (target key), run.moved + 1, run.stayed⟩

def relocateAll (target : α → α) (keys : List α) (run : Relocation α β) : Relocation α β :=
  keys.foldl (relocate target) run

/-- After steps for the keys in `done`, the entry that started at a key is at its place. -/
structure Relocated (target : α → α) (start : α → Option β) (done : List α)
    (run : Relocation α β) (place : α → α) : Prop where
  placed : Placed start run.entries place
  present : ∀ key ∈ done, (start key).isSome
  choice : ∀ key, place key = key ∨ key ∈ done ∧ place key = target key
  blocked : ∀ key ∈ done, place key = key → (run.entries (target key)).isSome
  /-- The first of the keys that share a free target gets it. -/
  first : ∀ key ∈ done, place key ≠ key ↔
    start (target key) = none ∧ ∀ other ∈ earlier done key, target other ≠ target key
  moved : run.moved = done.countP fun key => place key != key
  stayed : run.stayed = done.countP fun key => place key == key

section Steps

variable {target : α → α} {start : α → Option β} {done : List α} {run : Relocation α β}
  {place : α → α} {key : α}

theorem relocated_start (target : α → α) (start : α → Option β) :
    Relocated target start [] ⟨start, 0, 0⟩ id where
  placed := Placed.refl start
  present _ member := absurd member List.not_mem_nil
  choice _ := Or.inl rfl
  blocked _ member := absurd member List.not_mem_nil
  first _ member := absurd member List.not_mem_nil
  moved := rfl
  stayed := rfl

theorem Relocated.place_of_notMem (relocated : Relocated target start done run place)
    (fresh : key ∉ done) : place key = key := by
  rcases relocated.choice key with same | moved
  · exact same
  · exact absurd moved.1 fresh

theorem Relocated.free (relocated : Relocated target start done run place) (member : key ∈ done)
    (moved : place key ≠ key) : start (target key) = none :=
  ((relocated.first key member).mp moved).1

/-- A key that had its turn finds its target taken. -/
theorem Relocated.taken (relocated : Relocated target start done run place) (member : key ∈ done) :
    (run.entries (target key)).isSome := by
  by_cases stays : place key = key
  · exact relocated.blocked key member stays
  · have kept := relocated.placed.kept key (relocated.present key member)
    rw [((relocated.choice key).resolve_left stays).2] at kept
    rw [kept]
    exact relocated.present key member

/-- An entry that is at a target never moves. -/
theorem Relocated.place_target (relocated : Relocated target start done run place)
    (idempotent : ∀ key, target (target key) = target key) (key : α) :
    place (target key) = target key := by
  rcases relocated.choice (target key) with same | moved
  · exact same
  · rw [moved.2, idempotent]

omit [DecidableEq α] in
private theorem mem_done {other : α} (member : other ∈ done ++ [key]) :
    other ∈ done ∨ other = key :=
  (List.mem_append.mp member).imp_right List.mem_singleton.mp

/-- A key whose target is taken stays. -/
theorem Relocated.stay (relocated : Relocated target start done run place) (fresh : key ∉ done)
    (present : (start key).isSome) (taken : (run.entries (target key)).isSome) :
    Relocated target start (done ++ [key]) { run with stayed := run.stayed + 1 } place where
  placed := relocated.placed
  present := by
    intro other member
    rcases mem_done member with inside | last
    · exact relocated.present other inside
    · exact last ▸ present
  choice other :=
    (relocated.choice other).imp_right fun moved => ⟨List.mem_append_left _ moved.1, moved.2⟩
  blocked := by
    intro other member same
    rcases mem_done member with inside | last
    · exact relocated.blocked other inside same
    · rw [last]
      exact taken
  first := by
    intro other member
    rcases mem_done member with inside | last
    · rw [earlier_append inside]
      exact relocated.first other inside
    · rw [last, earlier_concat fresh]
      constructor
      · exact fun moved => absurd (relocated.place_of_notMem fresh) moved
      · -- Whatever is at the target was there at the start or got there before.
        rintro ⟨empty, alone⟩
        obtain ⟨origin, originPresent, same⟩ := relocated.placed.covered (target key) taken
        rcases relocated.choice origin with own | moved
        · rw [← same, own] at empty
          rw [empty] at originPresent
          contradiction
        · exact absurd (moved.2.symm.trans same) (alone origin moved.1)
  moved := by
    have own := relocated.place_of_notMem fresh
    rw [List.countP_append, List.countP_cons_of_neg (by simp [own])]
    exact relocated.moved
  stayed := by
    have own := relocated.place_of_notMem fresh
    rw [List.countP_append, List.countP_cons_of_pos (by simp [own])]
    exact congrArg (· + 1) relocated.stayed

/-- A key whose target is free moves there. -/
theorem Relocated.move (relocated : Relocated target start done run place)
    (idempotent : ∀ key, target (target key) = target key) (fresh : key ∉ done)
    (present : (start key).isSome) (astray : target key ≠ key)
    (empty : run.entries (target key) = none) :
    Relocated target start (done ++ [key])
      ⟨moveEntry run.entries key (target key), run.moved + 1, run.stayed⟩
      (Function.update place key (target key)) := by
  have own := relocated.place_of_notMem fresh
  have unchanged : ∀ other ∈ done, Function.update place key (target key) other = place other := by
    intro other member
    apply Function.update_of_ne
    intro same
    rw [same] at member
    exact fresh member
  have counted : ∀ test : α → α → Bool,
      (done.countP fun other => test (Function.update place key (target key) other) other) =
        done.countP fun other => test (place other) other := by
    intro test
    apply List.countP_congr
    intro other member
    rw [unchanged other member]
  refine
    { placed := relocated.placed.move present own empty astray
      present := ?present
      choice := ?choice
      blocked := ?blocked
      first := ?first
      moved := ?moved
      stayed := ?stayed }
  case present =>
    intro other member
    rcases mem_done member with inside | last
    · exact relocated.present other inside
    · exact last ▸ present
  case choice =>
    intro other
    by_cases same : other = key
    · rw [same, Function.update_self]
      exact Or.inr ⟨List.mem_append_right _ List.mem_cons_self, rfl⟩
    · rw [Function.update_of_ne same]
      exact (relocated.choice other).imp_right fun moved =>
        ⟨List.mem_append_left _ moved.1, moved.2⟩
  case blocked =>
    intro other member stays
    rcases mem_done member with inside | last
    · rw [unchanged other inside] at stays
      have blocked := relocated.blocked other inside stays
      dsimp only
      by_cases atTarget : target other = target key
      · have kept := relocated.placed.kept key present
        rw [own] at kept
        rw [atTarget, moveEntry_target, kept]
        exact present
      · rw [moveEntry_of_ne atTarget]
        · exact blocked
        -- The key is nobody's target: an entry at a target is there to stay.
        · intro same
          have fixed := idempotent other
          rw [same] at fixed
          exact astray fixed
    · rw [last, Function.update_self] at stays
      exact absurd stays astray
  case first =>
    intro other member
    rcases mem_done member with inside | last
    · rw [unchanged other inside, earlier_append inside]
      exact relocated.first other inside
    · rw [last, Function.update_self, earlier_concat fresh]
      refine ⟨fun _ => ⟨?_, ?_⟩, fun _ => astray⟩
      · by_contra taken
        have standing := Option.isSome_iff_ne_none.mpr taken
        exact relocated.placed.ne_of_empty empty standing (relocated.place_target idempotent key)
      · -- An earlier key with this target would have taken it.
        intro rival rivalDone shared
        have taken := relocated.taken rivalDone
        rw [shared, empty] at taken
        contradiction
  case moved =>
    rw [List.countP_append, counted (· != ·), List.countP_cons_of_pos (by simp [astray])]
    exact congrArg (· + 1) relocated.moved
  case stayed =>
    rw [List.countP_append, counted (· == ·), List.countP_cons_of_neg (by simp [astray])]
    exact relocated.stayed

/-- Nothing comes to a key whose entry moved. -/
theorem Relocated.vacated (relocated : Relocated target start done run place)
    (idempotent : ∀ key, target (target key) = target key) (moved : place key ≠ key) :
    run.entries key = none := by
  by_contra standing
  obtain ⟨origin, _, same⟩ :=
    relocated.placed.covered key (Option.isSome_iff_ne_none.mpr standing)
  rcases relocated.choice origin with own | gone
  · have origin_eq : origin = key := own.symm.trans same
    rw [origin_eq] at own
    exact moved own
  · have fixed := idempotent origin
    rw [← gone.2, same] at fixed
    exact moved (((relocated.choice key).resolve_left moved).2.trans fixed)

/-- Other entries survive a step. -/
theorem relocate_keeps {other : α} (different : other ≠ key) (present : (run.entries other).isSome)
    (keyPresent : (run.entries key).isSome) :
    ((relocate target run key).entries other).isSome := by
  unfold relocate
  split
  next => exact present
  next =>
    dsimp only
    by_cases atTarget : other = target key
    · rw [atTarget, moveEntry_target]
      exact keyPresent
    · rw [moveEntry_of_ne atTarget different]
      exact present

/-- A run over keys whose targets are all taken moves nothing. -/
theorem relocateAll_blocked {keys : List α}
    (taken : ∀ key ∈ keys, (run.entries (target key)).isSome) :
    relocateAll target keys run = { run with stayed := run.stayed + keys.length } := by
  induction keys generalizing run with
  | nil => rfl
  | cons head tail inductionHypothesis =>
      have step : relocate target run head = { run with stayed := run.stayed + 1 } :=
        if_pos (taken head List.mem_cons_self)
      have rest : relocateAll target tail { run with stayed := run.stayed + 1 } =
          { run with stayed := run.stayed + 1 + tail.length } :=
        inductionHypothesis fun key member => taken key (List.mem_cons_of_mem _ member)
      rw [relocateAll, List.foldl_cons, step, ← relocateAll, rest, List.length_cons,
        Nat.add_comm tail.length, Nat.add_assoc]

/-- What a run over present keys, none of them at its target, leaves behind. Entries
placed before it keep their places. -/
theorem Relocated.all (relocated : Relocated target start done run place)
    (idempotent : ∀ key, target (target key) = target key) {keys : List α}
    (distinct : (done ++ keys).Nodup) (present : ∀ key ∈ keys, (start key).isSome)
    (astray : ∀ key ∈ keys, target key ≠ key) :
    ∃ last, Relocated target start (done ++ keys) (relocateAll target keys run) last ∧
      ∀ key ∈ done, last key = place key := by
  induction keys generalizing done run place with
  | nil =>
      rw [List.append_nil]
      exact ⟨place, relocated, fun _ _ => rfl⟩
  | cons head tail inductionHypothesis =>
      have fresh : head ∉ done := by
        intro member
        exact (List.nodup_append.mp distinct).2.2 head member head List.mem_cons_self rfl
      rw [List.append_cons] at distinct ⊢
      have restPresent := fun key (member : key ∈ tail) =>
        present key (List.mem_cons_of_mem _ member)
      have restAstray := fun key (member : key ∈ tail) =>
        astray key (List.mem_cons_of_mem _ member)
      rw [relocateAll, List.foldl_cons, ← relocateAll, relocate]
      split
      next taken =>
        obtain ⟨last, final, agrees⟩ := inductionHypothesis
          (relocated.stay fresh (present head List.mem_cons_self) taken) distinct
          restPresent restAstray
        exact ⟨last, final, fun key member => agrees key (List.mem_append_left _ member)⟩
      next free =>
        have empty : run.entries (target head) = none := by simpa using free
        obtain ⟨last, final, agrees⟩ := inductionHypothesis
          (relocated.move idempotent fresh (present head List.mem_cons_self)
            (astray head List.mem_cons_self) empty) distinct restPresent restAstray
        refine ⟨last, final, fun key member => ?_⟩
        rw [agrees key (List.mem_append_left _ member), Function.update_of_ne]
        intro same
        rw [same] at member
        exact fresh member

end Steps

/-! ## When the order decides nothing -/

/-- No two keys share a target that is free at the start. -/
def Alone (target : α → α) (start : α → Option β) (keys : List α) : Prop :=
  ∀ a ∈ keys, ∀ b ∈ keys, target a = target b → start (target a) = none → a = b

section Order

variable {target : α → α} {start : α → Option β} {done : List α} {run : Relocation α β}
  {place : α → α}

theorem Relocated.total (relocated : Relocated target start done run place) :
    run.moved + run.stayed = done.length := by
  have split := List.length_eq_countP_add_countP (fun key => place key == key) (l := done)
  rw [relocated.moved, relocated.stayed, split, Nat.add_comm]
  congr 1
  apply List.countP_congr
  simp

/-- Among keys that are alone, those stay whose targets were taken at the start. -/
theorem Relocated.stays_iff (relocated : Relocated target start done run place)
    (alone : Alone target start done) (astray : ∀ key ∈ done, target key ≠ key) {key : α}
    (member : key ∈ done) : place key = key ↔ (start (target key)).isSome := by
  constructor
  · intro stays
    have blocked := relocated.blocked key member stays
    by_contra free
    have empty : start (target key) = none := by simpa using free
    obtain ⟨origin, present, same⟩ := relocated.placed.covered (target key) blocked
    rcases relocated.choice origin with own | moved
    · rw [← same, own] at free
      exact free present
    · have sole : key = origin := alone key member origin moved.1 (same.symm.trans moved.2) empty
      rw [← sole, stays] at same
      exact astray key member same.symm
  · intro taken
    by_contra moved
    rw [relocated.free member moved] at taken
    contradiction

/-- The count of a run is what a look at the start foretells, exactly if its keys are
alone. -/
theorem Relocated.alone_iff (relocated : Relocated target start done run place)
    (astray : ∀ key ∈ done, target key ≠ key) :
    Alone target start done ↔
      run.stayed = done.countP fun key => (start (target key)).isSome := by
  rw [relocated.stayed]
  constructor
  · intro alone
    apply List.countP_congr
    intro key member
    rw [beq_iff_eq]
    exact relocated.stays_iff alone astray member
  · intro counted a aMember b bMember shared empty
    by_contra different
    -- One of the two is left behind although its target was free.
    have left : ∃ key ∈ done, place key = key ∧ start (target key) = none := by
      by_cases aStays : place a = a
      · exact ⟨a, aMember, aStays, empty⟩
      · by_cases bStays : place b = b
        · exact ⟨b, bMember, bStays, shared ▸ empty⟩
        · have aMoved := ((relocated.choice a).resolve_left aStays).2
          have bMoved := ((relocated.choice b).resolve_left bStays).2
          have same : place a = place b := by rw [aMoved, bMoved, shared]
          exact absurd (relocated.placed.injective (relocated.present a aMember)
            (relocated.present b bMember) same) different
    obtain ⟨key, member, stays, free⟩ := left
    have fewer : done.countP (fun key => (start (target key)).isSome) <
        done.countP fun key => place key == key := by
      refine countP_lt_countP ?_ member (by simp [free]) (by simp [stays])
      intro other inside taken
      rw [beq_iff_eq]
      by_contra moved
      rw [relocated.free inside moved] at taken
      contradiction
    omega

theorem Relocated.moved_of_alone (relocated : Relocated target start done run place)
    (alone : Alone target start done) (astray : ∀ key ∈ done, target key ≠ key) :
    run.moved = done.countP fun key => !(start (target key)).isSome := by
  have total := relocated.total
  have stayed := (relocated.alone_iff astray).mp alone
  have split :=
    List.length_eq_countP_add_countP (fun key => (start (target key)).isSome) (l := done)
  have same : (done.countP fun key => !(start (target key)).isSome) =
      done.countP fun key => decide ¬(start (target key)).isSome = true := by
    apply List.countP_congr
    simp
  omega

omit [DecidableEq α] in
/-- Places determine the map. -/
theorem Placed.unique {left right : α → Option β} (leftPlaced : Placed start left place)
    (rightPlaced : Placed start right place) : left = right := by
  have agrees : ∀ {one other : α → Option β}, Placed start one place →
      Placed start other place → ∀ key, (one key).isSome → one key = other key := by
    intro one other onePlaced otherPlaced key present
    obtain ⟨origin, originPresent, same⟩ := onePlaced.covered key present
    rw [← same, onePlaced.kept origin originPresent, otherPlaced.kept origin originPresent]
  funext key
  by_cases leftPresent : (left key).isSome
  · exact agrees leftPlaced rightPlaced key leftPresent
  · by_cases rightPresent : (right key).isSome
    · exact (agrees rightPlaced leftPlaced key rightPresent).symm
    · simp only [Option.not_isSome_iff_eq_none] at leftPresent rightPresent
      rw [leftPresent, rightPresent]

/-- Two runs over the same keys in different orders end alike when the keys are alone. -/
theorem Relocated.unique {left right : List α} {leftRun rightRun : Relocation α β}
    {leftPlace rightPlace : α → α} (leftDone : Relocated target start left leftRun leftPlace)
    (rightDone : Relocated target start right rightRun rightPlace) (same : left.Perm right)
    (alone : Alone target start left) (astray : ∀ key ∈ left, target key ≠ key) :
    leftRun.entries = rightRun.entries := by
  have rightAlone : Alone target start right := by
    intro a aMember b bMember
    exact alone a (same.symm.subset aMember) b (same.symm.subset bMember)
  have places : leftPlace = rightPlace := by
    funext key
    by_cases member : key ∈ left
    · have rightMember := same.subset member
      have leftStays := leftDone.stays_iff alone astray member
      have rightStays := rightDone.stays_iff rightAlone
        (fun key inside => astray key (same.symm.subset inside)) rightMember
      by_cases stays : leftPlace key = key
      · rw [stays, rightStays.mpr (leftStays.mp stays)]
      · have rightMoves : rightPlace key ≠ key := fun own =>
          stays (leftStays.mpr (rightStays.mp own))
        rw [((leftDone.choice key).resolve_left stays).2,
          ((rightDone.choice key).resolve_left rightMoves).2]
    · rw [leftDone.place_of_notMem member,
        rightDone.place_of_notMem fun inside => member (same.symm.subset inside)]
  have rightPlaced := rightDone.placed
  rw [← places] at rightPlaced
  exact leftDone.placed.unique rightPlaced

end Order

end CixCache.Lib
