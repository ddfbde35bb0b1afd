import CixCache.Store.Publish

/-!
Contract: the walk over published entries and the slot arrays its callbacks fill.

Owns: `storeWalk`, which reports every validly named entry under its literal
name; `listed`, the entries a directory listing makes it report; `SlotSet`, the
array that grows by doubling, and the three callbacks that push into one.

Does not own: what is done with a filled array.
-/

namespace CixCache

/-! ## Functions of the source -/

/-- A callback of the walk: name, digest, size of the blob when it is present,
mtime. `none` is the non-zero result that stops the walk. -/
abbrev WalkCallback (σ : Type) := σ → Bytes → Bytes → Option Nat → Int → Option σ

/-- The `readdir` loop of `store_walk`. -/
def walkEntries {σ : Type} (sys : Sys) (st : Store) (fn : WalkCallback σ) :
    List Bytes → σ → Option σ
  | [], ctx => some ctx
  | name :: rest, ctx =>
      if name.head? = some dot then walkEntries sys st fn rest ctx
      else if storeNameIsValid name = false then walkEntries sys st fn rest ctx
      else
        -- The literal name on disk, never its canonical form.
        match rawEntryPath st.root name with
        | none => walkEntries sys st fn rest ctx
        | some path =>
            match resolvePath st.files path with
            | .error _ => walkEntries sys st fn rest ctx
            | .ok digest =>
                match fn ctx name digest (storeBlobExists st digest) (sys.mtime path) with
                | none => none
                | some ctx => walkEntries sys st fn rest ctx

def storeWalk {σ : Type} (sys : Sys) (st : Store) (fn : WalkCallback σ) (ctx : σ) : Option σ :=
  match sys.readdir .packages with
  | none => none
  | some names => walkEntries sys st fn names ctx

/-- `struct rename_set` and `struct live_set`. -/
structure SlotSet where
  slots : List Bytes
  cap : Nat
deriving DecidableEq, Repr

def SlotSet.empty : SlotSet := ⟨[], 0⟩

/-- `cap != 0 ? cap * 2 : 64` -/
def grownCap (cap : Nat) : Nat := if cap ≠ 0 then cap * 2 else 64

/-- The growth and the copy at the end of each callback. -/
def pushSlot (sys : Sys) (set : SlotSet) (text : Bytes) : Option SlotSet :=
  if set.slots.length = set.cap then
    if sys.allows (.realloc (grownCap set.cap)) then
      some ⟨set.slots ++ [text], grownCap set.cap⟩
    else none
  else some ⟨set.slots ++ [text], set.cap⟩

def collectNoncanonical (sys : Sys) : WalkCallback SlotSet :=
  fun set name _ _ _ =>
    match storeCanonicalName name with
    | some (_, true) => pushSlot sys set (snprintf storeNameMax name)
    | _ => some set

def collectArchless (sys : Sys) : WalkCallback SlotSet :=
  fun set name _ _ _ =>
    if storeNameIsValid name = false ∨ (storeArchOf name).isSome then some set
    else pushSlot sys set (snprintf storeNameMax name)

def collectLive (sys : Sys) : WalkCallback SlotSet :=
  fun set _ digest _ _ => pushSlot sys set digest

/-! ## What a walk reports -/

/-- The entries a walk reports, in the order of the listing. -/
def listed (files : Files) (names : List Bytes) : List (Bytes × Bytes) :=
  publishedAmong files (names.filter storeNameIsValid)

theorem mem_listed {files : Files} {names : List Bytes} {name digest : Bytes} :
    (name, digest) ∈ listed files names ↔
      name ∈ names ∧ storeNameIsValid name = true ∧ published files name = some digest := by
  rw [listed, mem_publishedAmong, List.mem_filter, and_assoc]

private theorem valid_head {name : Bytes} (valid : storeNameIsValid name = true) :
    name.head? ≠ some dot :=
  (storeNameIsValid.text valid).head

section Walking

variable {sys : Sys} {st : Store}

theorem walkEntries_eq {σ : Type} {fn : WalkCallback σ} (names : List Bytes) (ctx : σ) :
    walkEntries sys st fn names ctx =
      (listed st.files names).foldlM
        (fun ctx entry => fn ctx entry.1 entry.2 (storeBlobExists st entry.2)
          (sys.mtime (.packages entry.1))) ctx := by
  induction names generalizing ctx with
  | nil => rfl
  | cons name rest inductionHypothesis =>
      unfold walkEntries
      by_cases valid : storeNameIsValid name = true
      · rw [if_neg (valid_head valid), if_neg (by simp [valid]),
          rawEntryPath_of_lt _ (storeNameIsValid.length_lt valid)]
        dsimp only
        have kept : (name :: rest).filter storeNameIsValid =
            name :: rest.filter storeNameIsValid := List.filter_cons_of_pos valid
        cases direct : resolvePath st.files (.packages name) with
        | error error =>
            have missing : published st.files name = none := by simp [published, direct]
            dsimp only
            rw [inductionHypothesis, listed, listed, kept, publishedAmong_cons_none missing]
        | ok digest =>
            dsimp only
            rw [listed, kept, publishedAmong_cons_some (published_eq_some.mpr direct),
              List.foldlM_cons]
            cases fn ctx name digest (storeBlobExists st digest) (sys.mtime (.packages name)) with
            | none => rfl
            | some next => exact inductionHypothesis next
      · have dropped : (name :: rest).filter storeNameIsValid = rest.filter storeNameIsValid :=
          List.filter_cons_of_neg valid
        have invalid : storeNameIsValid name = false := by simpa using valid
        rw [if_pos invalid, ite_self, inductionHypothesis, listed, listed, dropped]

theorem pushSlot_some {set grown : SlotSet} {text : Bytes}
    (pushed : pushSlot sys set text = some grown) : grown.slots = set.slots ++ [text] := by
  unfold pushSlot at pushed
  split at pushed
  next =>
    split at pushed
    next => rw [← Option.some.inj pushed]
    next => contradiction
  next => rw [← Option.some.inj pushed]

theorem pushSlot_of_succeeds (succeeds : sys.Succeeds) (set : SlotSet) (text : Bytes) :
    (pushSlot sys set text).isSome := by
  unfold pushSlot
  split
  next =>
    rw [if_pos (succeeds _)]
    rfl
  next => rfl

/-- A walk whose callback never gives up comes to its end. -/
theorem storeWalk_isSome (st : Store) {σ : Type} {fn : WalkCallback σ}
    (total : ∀ ctx name digest size mtime, (fn ctx name digest size mtime).isSome)
    (opened : (sys.readdir .packages).isSome) (ctx : σ) : (storeWalk sys st fn ctx).isSome := by
  obtain ⟨names, listing⟩ := Option.isSome_iff_exists.mp opened
  unfold storeWalk
  rw [listing]
  dsimp only
  rw [walkEntries_eq]
  generalize listed st.files names = entries
  induction entries generalizing ctx with
  | nil => rfl
  | cons head tail inductionHypothesis =>
      rw [List.foldlM_cons]
      obtain ⟨next, stepped⟩ := Option.isSome_iff_exists.mp
        (total ctx head.1 head.2 (storeBlobExists st head.2) (sys.mtime (.packages head.1)))
      rw [stepped]
      exact inductionHypothesis next

/-- A fold whose steps push what an entry yields collects exactly that. -/
private theorem foldlM_slots {step : SlotSet → Bytes × Bytes → Option SlotSet}
    (yield : Bytes × Bytes → Option Bytes)
    (pushes : ∀ set entry grown, step set entry = some grown →
      grown.slots = set.slots ++ (yield entry).toList)
    {entries : List (Bytes × Bytes)} {set filled : SlotSet}
    (done : entries.foldlM step set = some filled) :
    filled.slots = set.slots ++ entries.filterMap yield := by
  induction entries generalizing set with
  | nil =>
      rw [← Option.some.inj done]
      simp
  | cons head tail inductionHypothesis =>
      rw [List.foldlM_cons] at done
      obtain ⟨grown, stepped, rest⟩ := Option.bind_eq_some_iff.mp done
      rw [inductionHypothesis rest, pushes _ _ _ stepped, List.append_assoc]
      cases found : yield head with
      | none => simp [found]
      | some text => simp [found]

/-- The live set holds the digest of every entry the walk reports. -/
theorem storeWalk_collectLive {filled : SlotSet}
    (walked : storeWalk sys st (collectLive sys) .empty = some filled) :
    ∃ names, sys.readdir .packages = some names ∧
      filled.slots = (listed st.files names).map Prod.snd := by
  unfold storeWalk at walked
  split at walked
  next => contradiction
  next names listing =>
    refine ⟨names, listing, ?_⟩
    rw [walkEntries_eq] at walked
    have slots := foldlM_slots (fun entry => some entry.2)
      (fun _ _ _ pushed => pushSlot_some pushed) walked
    rw [slots, ← List.filterMap_eq_map]
    rfl

/-- The names `store_canonicalize` collects are reported and not canonical. -/
theorem storeWalk_collectNoncanonical {filled : SlotSet}
    (walked : storeWalk sys st (collectNoncanonical sys) .empty = some filled) :
    ∃ names, sys.readdir .packages = some names ∧
      filled.slots = (listed st.files names).filterMap fun entry =>
        match storeCanonicalName entry.1 with
        | some (_, true) => some (snprintf storeNameMax entry.1)
        | _ => none := by
  unfold storeWalk at walked
  split at walked
  next => contradiction
  next names listing =>
    refine ⟨names, listing, ?_⟩
    rw [walkEntries_eq] at walked
    apply foldlM_slots _ _ walked
    intro set entry grown stepped
    unfold collectNoncanonical at stepped
    split at stepped
    next => exact pushSlot_some stepped
    next =>
      rw [← Option.some.inj stepped]
      simp

/-- The names `store_set_arch` collects are reported and carry no architecture. -/
theorem storeWalk_collectArchless {filled : SlotSet}
    (walked : storeWalk sys st (collectArchless sys) .empty = some filled) :
    ∃ names, sys.readdir .packages = some names ∧
      filled.slots = (listed st.files names).filterMap fun entry =>
        if storeNameIsValid entry.1 = false ∨ (storeArchOf entry.1).isSome then none
        else some (snprintf storeNameMax entry.1) := by
  unfold storeWalk at walked
  split at walked
  next => contradiction
  next names listing =>
    refine ⟨names, listing, ?_⟩
    rw [walkEntries_eq] at walked
    apply foldlM_slots _ _ walked
    intro set entry grown stepped
    unfold collectArchless at stepped
    split at stepped
    next skipped =>
      rw [if_pos skipped, ← Option.some.inj stepped]
      simp
    next collected =>
      rw [if_neg collected]
      exact pushSlot_some stepped

end Walking

end CixCache
