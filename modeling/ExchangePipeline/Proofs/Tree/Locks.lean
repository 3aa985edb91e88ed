/-
  ExchangePipeline/Proofs/Tree/Locks.lean
  =======================================
  **What a lock pins.**

  A lookup gives the nearest definition, and a lock keeps new definitions away
  from its node and from everything below.  So what is visible under a lock never
  changes again (`LockedBy.later`).  It is the locked definition itself, unless a
  node below the lock had a definition of its own before the lock was set; that
  one stays, and hides the lock (`older_definition_hides_lock`).  Nothing that
  comes after the lock hides it (`Reachable.lock_pins_unless_older`).

  A lock is there for good.  Its node keeps the locked definition, and every node
  at or below it, also one that comes later, sees the same definition from then on
  and takes no other (`Reachable.lock_is_final`).
-/
import ExchangePipeline.Proofs.Tree.Growth

namespace ExchangePipeline

namespace Tree

variable {tree a b : Tree} {d owner : NodeId} {name : String} {below : List NodeId}

/-- The way from `d` to the root reaches `owner` over the nodes `below`, and `owner` is the first
    node on it that locks the name. -/
structure LockedBy (tree : Tree) (d : NodeId) (name : String) (below : List NodeId)
    (owner : NodeId) : Prop where
  way : ∃ above, tree.ancestry d = below ++ owner :: above
  locks : tree.locksAt name owner = true
  nearest : ∀ i ∈ below, tree.locksAt name i = false

theorem lockingNode?_eq_some_iff :
    tree.lockingNode? d name = some owner ↔ ∃ below, tree.LockedBy d name below owner := by
  rw [lockingNode?, List.find?_eq_some_iff_append]
  constructor
  · rintro ⟨hlocks, below, above, hway, hnearest⟩
    exact ⟨below, ⟨above, hway⟩, hlocks, fun i hi => by simpa using hnearest i hi⟩
  · rintro ⟨below, ⟨above, hway⟩, hlocks, hnearest⟩
    exact ⟨hlocks, below, above, hway, fun i hi => by simpa using hnearest i hi⟩

theorem isLocked_iff : tree.isLocked d name = true ↔ ∃ below owner, tree.LockedBy d name below owner := by
  rw [isLocked, Option.isSome_iff_exists, exists_comm]
  exact exists_congr fun owner => lockingNode?_eq_some_iff

/-- A node without a lock in sight has no locking node among its ancestors. -/
theorem locksAt_of_lockingNode?_eq_none (h : tree.lockingNode? d name = none)
    (hmem : owner ∈ tree.ancestry d) : tree.locksAt name owner = false := by
  rw [lockingNode?, List.find?_eq_none] at h
  simpa using h owner hmem

/-- The lock is in sight of every node on the way to it. -/
theorem LockedBy.lockingNode?_ne_none (h : tree.LockedBy d name below owner)
    (hw : tree.WellFormed) {i : NodeId} (hi : i ∈ below ++ [owner]) :
    tree.lockingNode? i name ≠ none := by
  obtain ⟨above, hway⟩ := h.way
  have hmem : owner ∈ tree.ancestry i := by
    rcases List.mem_append.1 hi with hbelow | howner
    · obtain ⟨before, after, rfl⟩ := List.append_of_mem hbelow
      rw [List.append_assoc, List.cons_append] at hway
      rw [hw.ancestry_of_split hway]
      simp
    · rw [List.mem_singleton.1 howner, hw.ancestry_of_split hway]
      exact List.mem_cons_self
  intro hnone
  have hfree := locksAt_of_lockingNode?_eq_none hnone hmem
  rw [h.locks] at hfree
  cases hfree

/-! ### Under a lock nothing changes -/

/-- A step touches no definition of the name on the way to the lock. -/
theorem LockedBy.ownParameter?_step (h : a.LockedBy d name below owner) (hw : a.WellFormed)
    (hs : Step a b) {i : NodeId} (hi : i ∈ below ++ [owner]) :
    b.ownParameter? i name = a.ownParameter? i name := by
  rcases hs.definitions hw with hsame | ⟨id, parameter, -, hfree, hdefined⟩
  · exact hsame i name
  · rw [hdefined, if_neg]
    rintro ⟨rfl, rfl⟩
    exact h.lockingNode?_ne_none hw hi hfree

theorem LockedBy.step (h : a.LockedBy d name below owner) (hw : a.WellFormed) (hs : Step a b) :
    b.LockedBy d name below owner := by
  obtain ⟨above, hway⟩ := h.way
  obtain ⟨node, hn⟩ := @exists_node_of_mem_ancestry a d owner (by simp [hway])
  have hown : ∀ i ∈ below ++ [owner], b.locksAt name i = a.locksAt name i :=
    fun i hi => locksAt_congr (h.ownParameter?_step hw hs hi)
  refine ⟨⟨above, (hs.ancestry_eq hw hn).trans hway⟩, ?_, ?_⟩
  · rw [hown owner (by simp)]
    exact h.locks
  · intro i hi
    rw [hown i (List.mem_append_left _ hi)]
    exact h.nearest i hi

/-- **Under a lock nothing changes**: a lock stays the nearest one, and whatever happens to the
    tree, the nodes on the way to it define what they defined. -/
theorem LockedBy.later (h : a.LockedBy d name below owner) (hw : a.WellFormed) (hl : Later a b) :
    b.LockedBy d name below owner ∧
      ∀ i ∈ below ++ [owner], b.ownParameter? i name = a.ownParameter? i name := by
  induction hl with
  | refl => exact ⟨h, fun _ _ => rfl⟩
  | tail hl hs ih =>
    obtain ⟨hmid, hsame⟩ := ih
    have hwmid := hw.later hl
    refine ⟨hmid.step hwmid hs, fun i hi => ?_⟩
    rw [hmid.ownParameter?_step hwmid hs hi, hsame i hi]

/-- What is visible under a lock: the nearest definition on the way to it, and the locked one if
    there is no other. -/
theorem LockedBy.parameter?_eq (h : tree.LockedBy d name below owner) {pinned : Parameter}
    (hpinned : tree.ownParameter? owner name = some pinned) :
    tree.parameter? d name =
      some ((below.findSome? fun i => tree.ownParameter? i name).getD pinned) := by
  obtain ⟨above, hway⟩ := h.way
  rw [parameter?, hway, List.findSome?_append, List.findSome?_cons, hpinned]
  cases below.findSome? fun i => tree.ownParameter? i name with
  | none => rfl
  | some nearer => rfl

/-! ### What hides a lock is older -/

/-- **What hides a lock is older than it**: a definition below a lock was there when the node of
    the lock did not lock the name yet. -/
theorem Reachable.older_of_below_lock (h : Reachable tree) {i : NodeId} {nearer : Parameter}
    (howner : owner ∈ tree.ancestry i) (hne : i ≠ owner)
    (hlocks : tree.locksAt name owner = true)
    (hnearer : tree.ownParameter? i name = some nearer) :
    ∃ earlier, Reachable earlier ∧ Later earlier tree ∧
      earlier.ownParameter? i name = some nearer ∧ earlier.locksAt name owner = false := by
  induction h with
  | refl => cases i <;> cases hnearer
  | @tail a b ha hs ih =>
    have hw : a.WellFormed := Reachable.wellFormed ha
    -- while the definition stands and the lock does too, the step before is looked at
    have hold : (∃ node, a.node? i = some node) → a.ownParameter? i name = some nearer →
        b.locksAt name owner = a.locksAt name owner →
        ∃ earlier, Reachable earlier ∧ Later earlier b ∧
          earlier.ownParameter? i name = some nearer ∧ earlier.locksAt name owner = false := by
      rintro ⟨node, hn⟩ hown hsame
      rw [hs.ancestry_eq hw hn] at howner
      obtain ⟨earlier, hearlier, hlater, hrest⟩ := ih howner (hsame ▸ hlocks) hown
      exact ⟨earlier, hearlier, hlater.tail hs, hrest⟩
    rcases hs.definitions hw with hsame | ⟨id, parameter, ⟨node, hn⟩, hfree, hdefined⟩
    · have hown := (hsame i name).symm.trans hnearer
      exact hold (exists_node_of_ownParameter? hown) hown (locksAt_congr (hsame owner name))
    · by_cases hi : i = id ∧ name = parameter.name
      · -- the definition is new, but then nothing locks the name above it
        obtain ⟨rfl, rfl⟩ := hi
        rw [hs.ancestry_eq hw hn] at howner
        have hunlocked := locksAt_of_lockingNode?_eq_none hfree howner
        have hsame : b.ownParameter? owner parameter.name = a.ownParameter? owner parameter.name := by
          rw [hdefined, if_neg fun heq => hne heq.1.symm]
        rw [locksAt_congr hsame, hunlocked] at hlocks
        cases hlocks
      · rw [hdefined, if_neg hi] at hnearer
        by_cases hset : owner = id ∧ name = parameter.name
        · -- the lock is new, and just before it the definition was there
          obtain ⟨rfl, rfl⟩ := hset
          refine ⟨a, ha, .single hs, hnearer, ?_⟩
          exact locksAt_of_lockingNode?_eq_none hfree (self_mem_ancestry hn)
        · refine hold (exists_node_of_ownParameter? hnearer) hnearer (locksAt_congr ?_)
          rw [hdefined, if_neg hset]

/-! ### What is visible under a lock -/

/-- A service defined a parameter before the root locked its name; an operation of the service and
    another service came later. -/
def lateLock : Tree where
  nodes := [
    { Node.fresh .root "global" none with
      parameters := [("mode", { name := "mode", value := .string "strict", locked := true })] },
    { Node.fresh .service "orders" (some rootId) with
      parameters := [("mode", { name := "mode", value := .string "lenient", locked := false })] },
    .fresh .operation "place" (some 1),
    .fresh .service "billing" (some rootId)]
  children := [
    ({ parent := rootId, kind := .service, name := "orders" }, 1),
    ({ parent := 1, kind := .operation, name := "place" }, 2),
    ({ parent := rootId, kind := .service, name := "billing" }, 3)]

theorem reachable_lateLock : Reachable lateLock := by
  have hservice : Reachable _ := .single (@Step.addService _ _ "orders" _ rfl)
  have hlenient : Reachable _ :=
    hservice.tail (@Step.addParameter _ _ 1 ⟨"mode", .string "lenient", false⟩ rfl)
  have hstrict : Reachable _ :=
    hlenient.tail (@Step.addParameter _ _ rootId ⟨"mode", .string "strict", true⟩ rfl)
  have hoperation : Reachable _ := hstrict.tail (@Step.addOperation _ _ "orders" "place" _ rfl)
  exact hoperation.tail (@Step.addService _ _ "billing" _ rfl)

/-- **A lock does not always win.**  A definition that was there before the lock is still the
    nearest one, and the lookup gives it though the name is locked. -/
theorem older_definition_hides_lock :
    ¬ ∀ tree : Tree, Reachable tree → ∀ d name, tree.isLocked d name = true →
      ∃ owner pinned, tree.lockingNode? d name = some owner ∧
        tree.ownParameter? owner name = some pinned ∧ pinned.locked = true ∧
        tree.parameter? d name = some pinned := by
  intro h
  obtain ⟨owner, pinned, -, -, hlocked, hvisible⟩ := h lateLock reachable_lateLock 1 "mode" (by decide)
  have hlenient : lateLock.parameter? 1 "mode" = some ⟨"mode", .string "lenient", false⟩ := rfl
  rw [hlenient, Option.some.injEq] at hvisible
  subst hvisible
  cases hlocked

/-- **What is visible under a lock.**  It is the locked definition of the nearest node that locks
    the name, unless nodes on the way to it define the name themselves.  Their definitions are not
    locked and are older than the lock; then the nearest of them is visible.  Whatever is added
    later, the lock stays the nearest one and what is visible stays the same. -/
theorem Reachable.lock_pins_unless_older (h : Reachable tree)
    (hlocked : tree.isLocked d name = true) :
    ∃ below owner pinned, tree.LockedBy d name below owner ∧
      tree.lockingNode? d name = some owner ∧
      tree.ownParameter? owner name = some pinned ∧ pinned.locked = true ∧
      tree.parameter? d name =
        some ((below.findSome? fun i => tree.ownParameter? i name).getD pinned) ∧
      (∀ i ∈ below, ∀ nearer, tree.ownParameter? i name = some nearer → nearer.locked = false ∧
        ∃ earlier, Reachable earlier ∧ Later earlier tree ∧
          earlier.ownParameter? i name = some nearer ∧ earlier.locksAt name owner = false) ∧
      ∀ later, Later tree later → later.LockedBy d name below owner ∧
        later.parameter? d name = tree.parameter? d name := by
  have hw := h.wellFormed
  obtain ⟨below, owner, hby⟩ := isLocked_iff.1 hlocked
  obtain ⟨above, hway⟩ := hby.way
  obtain ⟨pinned, hpinned, hlock⟩ := locksAt_iff.1 hby.locks
  refine ⟨below, owner, pinned, hby, lockingNode?_eq_some_iff.2 ⟨below, hby⟩, hpinned, hlock,
    hby.parameter?_eq hpinned, ?_, ?_⟩
  · intro i hi nearer hnearer
    have hfree := hby.nearest i hi
    have hunlocked : nearer.locked = false := by
      rw [← Bool.not_eq_true]
      intro hl
      rw [locksAt_iff.2 ⟨nearer, hnearer, hl⟩] at hfree
      cases hfree
    have hne : i ≠ owner := by
      rintro rfl
      rw [hby.locks] at hfree
      cases hfree
    refine ⟨hunlocked, h.older_of_below_lock ?_ hne hby.locks hnearer⟩
    obtain ⟨before, after, rfl⟩ := List.append_of_mem hi
    rw [List.append_assoc, List.cons_append] at hway
    rw [hw.ancestry_of_split hway]
    simp
  · intro later hlater
    obtain ⟨hby', hsame⟩ := hby.later hw hlater
    have hpinned' := (hsame owner (by simp)).trans hpinned
    refine ⟨hby', ?_⟩
    rw [hby'.parameter?_eq hpinned', hby.parameter?_eq hpinned]
    rw [← List.head?_filterMap, ← List.head?_filterMap,
      List.filterMap_congr fun i hi => hsame i (List.mem_append_left _ hi)]

/-- The older definition of the service hides the lock of the root from its operation, for good. -/
theorem lock_pins_unless_older_below_service :
    Reachable lateLock ∧ lateLock.isLocked 2 "mode" = true ∧
      ∃ below owner, lateLock.LockedBy 2 "mode" below owner ∧
        (∀ i ∈ below, ∀ nearer, lateLock.ownParameter? i "mode" = some nearer →
          nearer.locked = false ∧ ∃ earlier, Reachable earlier ∧ Later earlier lateLock ∧
            earlier.ownParameter? i "mode" = some nearer ∧
            earlier.locksAt "mode" owner = false) ∧
        ∀ later, Later lateLock later →
          later.parameter? 2 "mode" = some ⟨"mode", .string "lenient", false⟩ := by
  have hlocked : lateLock.isLocked 2 "mode" = true := by decide
  obtain ⟨below, owner, -, hby, -, -, -, -, holder, hlater⟩ :=
    reachable_lateLock.lock_pins_unless_older hlocked
  exact ⟨reachable_lateLock, hlocked, below, owner, hby, holder, fun later h => (hlater later h).2⟩

/-! ### A lock is there for good -/

theorem Later.ancestry_eq (hl : Later a b) (hw : a.WellFormed) {id : NodeId} {node : Node}
    (hn : a.node? id = some node) : b.ancestry id = a.ancestry id := by
  induction hl with
  | refl => rfl
  | @tail mid b hl hs ih =>
    have hmid : id ∈ mid.ancestry id := by
      rw [ih]
      exact self_mem_ancestry hn
    obtain ⟨node', hn'⟩ := exists_node_of_mem_ancestry hmid
    rw [hs.ancestry_eq (hw.later hl) hn', ih]

/-- A node that locks a name is locked by itself. -/
theorem WellFormed.lockedBy_self (hw : tree.WellFormed) (hlocks : tree.locksAt name owner = true) :
    tree.LockedBy owner name [] owner := by
  obtain ⟨pinned, hpinned, -⟩ := locksAt_iff.1 hlocks
  obtain ⟨node, hn⟩ := exists_node_of_ownParameter? hpinned
  obtain ⟨before, above, hway⟩ := List.append_of_mem (self_mem_ancestry hn)
  exact ⟨⟨above, hw.ancestry_of_split hway⟩, hlocks, fun i hi => by cases hi⟩

/-- Below a node that locks a name some node is the nearest to do so. -/
theorem exists_lockedBy (hmem : owner ∈ tree.ancestry d) (hlocks : tree.locksAt name owner = true) :
    ∃ below locking, tree.LockedBy d name below locking := by
  apply isLocked_iff.1
  rw [isLocked, lockingNode?, List.find?_isSome]
  exact ⟨owner, hmem, hlocks⟩

/-- A name that is locked in the sight of a node cannot be defined there. -/
theorem LockedBy.addParameter_error (h : tree.LockedBy d name below owner) {parameter : Parameter}
    (hname : parameter.name = name) :
    tree.addParameter d parameter =
      .error (.lockedParameter name (tree.path d) (tree.path owner)) := by
  obtain ⟨above, hway⟩ := h.way
  obtain ⟨node, hn⟩ := @exists_node_of_mem_ancestry tree d owner (by simp [hway])
  rw [addParameter, hn, hname, lockingNode?_eq_some_iff.2 ⟨below, h⟩]

/-- What is visible under a lock stays visible. -/
theorem LockedBy.parameter?_later (h : a.LockedBy d name below owner) (hw : a.WellFormed)
    (hl : Later a b) {pinned : Parameter} (hpinned : a.ownParameter? owner name = some pinned) :
    b.parameter? d name =
      some ((below.findSome? fun i => a.ownParameter? i name).getD pinned) := by
  obtain ⟨hlater, hsame⟩ := h.later hw hl
  have hbelow : (below.findSome? fun i => b.ownParameter? i name) =
      below.findSome? fun i => a.ownParameter? i name := by
    rw [← List.head?_filterMap, ← List.head?_filterMap,
      List.filterMap_congr fun i hi => hsame i (List.mem_append_left _ hi)]
  rw [hlater.parameter?_eq ((hsame owner (by simp)).trans hpinned), hbelow]

/-- **A lock is there for good.**  Whatever happens to the tree after a node has defined a name as
    locked, the node keeps that definition.  At every node that is then at or below it, whenever
    that node was created, the name is locked and cannot be defined, and what is visible under it
    never changes again. -/
theorem Reachable.lock_is_final (h : Reachable tree) {pinned : Parameter}
    (hpinned : tree.ownParameter? owner name = some pinned) (hlocked : pinned.locked = true)
    {later : Tree} (hlater : Later tree later) :
    later.ownParameter? owner name = some pinned ∧
    ∀ d, owner ∈ later.ancestry d →
      later.isLocked d name = true ∧
      (∀ parameter : Parameter, parameter.name = name → ∃ locking,
        later.lockingNode? d name = some locking ∧
        later.addParameter d parameter =
          .error (.lockedParameter name (later.path d) (later.path locking))) ∧
      ∃ visible, ∀ evenLater, Later later evenLater →
        owner ∈ evenLater.ancestry d ∧ evenLater.parameter? d name = some visible := by
  have hw := h.wellFormed
  have hself := hw.lockedBy_self (locksAt_iff.2 ⟨pinned, hpinned, hlocked⟩)
  obtain ⟨hself', hsame⟩ := hself.later hw hlater
  have hwlater := hw.later hlater
  refine ⟨(hsame owner (by simp)).trans hpinned, fun d hd => ?_⟩
  -- the lock that counts at `d` is that of `owner`, or one further down
  obtain ⟨below, locking, hby⟩ := exists_lockedBy hd hself'.locks
  obtain ⟨nearest, hnearest, -⟩ := locksAt_iff.1 hby.locks
  obtain ⟨node, hn⟩ := exists_node_of_mem_ancestry hd
  refine ⟨isLocked_iff.2 ⟨below, locking, hby⟩, fun parameter hname => ?_, ?_⟩
  · exact ⟨locking, lockingNode?_eq_some_iff.2 ⟨below, hby⟩, hby.addParameter_error hname⟩
  · refine ⟨_, fun evenLater heven => ⟨?_, hby.parameter?_later hwlater heven hnearest⟩⟩
    rw [heven.ancestry_eq hwlater hn]
    exact hd

/-- A service locked a parameter that its operation had defined before. -/
def serviceLock : Tree where
  nodes := [
    .fresh .root "global" none,
    { Node.fresh .service "orders" (some rootId) with
      parameters := [("mode", { name := "mode", value := .string "strict", locked := true })] },
    { Node.fresh .operation "place" (some 1) with
      parameters := [("mode", { name := "mode", value := .string "lenient", locked := false })] }]
  children := [
    ({ parent := rootId, kind := .service, name := "orders" }, 1),
    ({ parent := 1, kind := .operation, name := "place" }, 2)]

theorem reachable_serviceLock : Reachable serviceLock := by
  have hservice : Reachable _ := .single (@Step.addService _ _ "orders" _ rfl)
  have hoperation : Reachable _ := hservice.tail (@Step.addOperation _ _ "orders" "place" _ rfl)
  have hlenient : Reachable _ :=
    hoperation.tail (@Step.addParameter _ _ 2 ⟨"mode", .string "lenient", false⟩ rfl)
  exact hlenient.tail (@Step.addParameter _ _ 1 ⟨"mode", .string "strict", true⟩ rfl)

/-- The root locks the same name after that, and another operation comes.  Both operations stay at
    what they see first. -/
theorem lock_is_final_under_service :
    ∃ later, Later serviceLock later ∧
      serviceLock.ownParameter? 1 "mode" = some ⟨"mode", .string "strict", true⟩ ∧
      serviceLock.node? 3 = none ∧
      later.ownParameter? rootId "mode" = some ⟨"mode", .string "global", true⟩ ∧
      (∃ locking, later.addParameter 3 ⟨"mode", .null, false⟩ =
        .error (.lockedParameter "mode" (later.path 3) (later.path locking))) ∧
      ∀ evenLater, Later later evenLater →
        evenLater.parameter? 2 "mode" = some ⟨"mode", .string "lenient", false⟩ ∧
        evenLater.parameter? 3 "mode" = some ⟨"mode", .string "strict", true⟩ := by
  have hroot : Later serviceLock _ :=
    .single (@Step.addParameter _ _ rootId ⟨"mode", .string "global", true⟩ rfl)
  have hlater : Later serviceLock _ :=
    hroot.tail (@Step.addOperation _ _ "orders" "cancel" _ rfl)
  obtain ⟨-, hbelow⟩ := @Reachable.lock_is_final _ 1 "mode" reachable_serviceLock _ rfl rfl _ hlater
  obtain ⟨-, -, lenient, hlenient⟩ := hbelow 2 (by decide)
  obtain ⟨-, hrefused, strict, hstrict⟩ := hbelow 3 (by decide)
  obtain ⟨locking, -, herror⟩ := hrefused ⟨"mode", .null, false⟩ rfl
  refine ⟨_, hlater, rfl, rfl, rfl, ⟨locking, herror⟩, fun evenLater heven => ⟨?_, ?_⟩⟩
  · rw [(hlenient evenLater heven).2, ← (hlenient _ .refl).2]
    rfl
  · rw [(hstrict evenLater heven).2, ← (hstrict _ .refl).2]
    rfl

end Tree

end ExchangePipeline
