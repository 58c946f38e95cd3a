import MyDrivers.Store.Contents

/-! What one walk of `scull_follow` does, and the addresses a position splits
into. Both hold for every pattern of allocation failures. -/
namespace MyDrivers.Store
open Lib Lib.Machine

/-- The access stays inside the geometry: divisors are non-zero, slot indices
below `qset`, byte ranges below `quantum`, and the objects are that large. -/
def Within (quantum qset : Int) : Event → Prop
  | .divide divisor => divisor ≠ 0
  | .follow pointer => pointer.isSome
  | .slot index slots => 0 ≤ index ∧ index < qset ∧ slots = qset
  | .bytes start len size => 0 ≤ start ∧ start + len ≤ quantum ∧ quantum ≤ size
  | .alloc _ _ => True
  | .free _ _ => True

theorem Within.allowed {quantum qset : Int} {e : Event} (h : Within quantum qset e) :
    e.allowed = true := by
  cases e with
  | divide divisor => exact decide_eq_true h
  | follow pointer => exact h
  | slot index slots =>
    obtain ⟨hlow, hhigh, hslots⟩ := h
    have : index < slots := by omega
    simp [Event.allowed, hlow, this]
  | bytes start len size =>
    obtain ⟨hlow, hhigh, hsize⟩ := h
    have : start + len ≤ size := by omega
    simp [Event.allowed, hlow, this]
  | alloc addr via => rfl
  | free addr via => rfl

theorem touch_safe {quantum qset : Int} {e : Event} (h : Within quantum qset e) :
    (touch e).Safe (Within quantum qset) fun _ => True :=
  .guarded h h.allowed

/-! ## Allocations -/

def Supply.Enough (supply : Supply) (n : Nat) : Prop := ∀ k < n, (supply k).isSome

theorem Supply.enough_zero (supply : Supply) : supply.Enough 0 := by
  intro k hk
  omega

theorem Supply.enough_succ (supply : Supply) (n : Nat) :
    supply.Enough (n + 1) ↔ (supply 0).isSome ∧ (supply.drop 1).Enough n := by
  constructor
  · intro h
    exact ⟨h 0 (by omega), fun k hk => h (k + 1) (by omega)⟩
  · rintro ⟨hfirst, hrest⟩ k hk
    cases k with
    | zero => exact hfirst
    | succ k => exact hrest k (by omega)

theorem Supply.enough_add (supply : Supply) (m n : Nat) :
    supply.Enough (m + n) ↔ supply.Enough m ∧ (supply.drop m).Enough n := by
  constructor
  · intro h
    refine ⟨fun k hk => h k (by omega), fun k hk => ?_⟩
    exact h (k + m) (by omega)
  · rintro ⟨hfirst, hrest⟩ k hk
    by_cases hkm : k < m
    · exact hfirst k hkm
    · have := hrest (k - m) (by omega)
      rwa [Supply.drop, Nat.sub_add_cancel (by omega)] at this

def Supply.Full (supply : Supply) : Prop := ∀ k, (supply k).isSome

theorem Supply.Full.enough {supply : Supply} (h : supply.Full) (n : Nat) : supply.Enough n :=
  fun k _ => h k

def Obtainable (via : Allocator) (size : Nat) : Prop := via = .kmalloc → size < 2 ^ 63

theorem alloc?_safe (quantum qset : Int) (supply : Supply) (via : Allocator) (size : Nat) :
    (Event.alloc? supply via size).Safe (Within quantum qset) fun r =>
      r.2 = supply.drop 1 ∧ (r.1.isSome ↔ Obtainable via size ∧ (supply 0).isSome) := by
  unfold Event.alloc? Event.grant? Obtainable
  split
  · next hlarge =>
    refine .pure ⟨rfl, by simp, fun h => ?_⟩
    have := h.1 hlarge.1
    omega
  · next hsmall =>
    have hobtainable : via = .kmalloc → size < 2 ^ 63 := fun hvia => by
      by_contra hge
      exact hsmall ⟨hvia, by omega⟩
    cases hfirst : supply 0 with
    | none => exact .pure ⟨rfl, by simp, by simp⟩
    | some addr => exact .bind (.emit trivial) fun _ _ => .pure ⟨rfl, by simpa using hobtainable⟩

theorem obtainable_node : Obtainable .kmalloc sizeofQset := by
  intro _
  decide

/-! ## The walk -/

def missing (head : List ScullQset) (target : Int) : Nat := (target + 1).toNat - head.length

structure Walked (head : List ScullQset) (target : Int) (supply : Supply)
    (found : Followed) : Prop where
  extended : Extends head found.head
  reached : ∀ node, found.node = some node →
    (node : Int) = target ∧ found.head.length = max head.length (node + 1)
  stopped : found.node = none → 0 ≤ target → (found.head.length : Int) ≤ target
  complete : supply.Enough (missing head target) → 0 ≤ target →
    found.node ≠ none ∧ found.supply = supply.drop (missing head target)
  enough : found.node ≠ none → supply.Enough (missing head target)

theorem appendNode_safe (quantum qset : Int) {head : List ScullQset} (hhead : 0 < head.length)
    (supply : Supply) :
    (appendNode head (some (head.length - 1)) supply).Safe (Within quantum qset)
      fun found => found.supply = supply.drop 1 ∧
        match found.node with
        | none => found.head = head ∧ supply 0 = none
        | some node => node = head.length ∧ (supply 0).isSome ∧
            ∃ addr, found.head = head ++ [⟨addr, none⟩] := by
  refine .bind (alloc?_safe quantum qset supply .kmalloc sizeofQset) ?_
  rintro ⟨qs, rest⟩ ⟨hrest, hqs⟩
  obtain rfl : rest = supply.drop 1 := hrest
  have hqs : qs.isSome ↔ (supply 0).isSome := by simpa [obtainable_node] using hqs
  cases qs with
  | none =>
    exact .pure ⟨rfl, rfl, by simpa using hqs⟩
  | some addr =>
    have hfirst : (supply 0).isSome := by simpa using hqs
    refine .bind (touch_safe rfl) fun _ _ => .pure ?_
    have hposition : (some (head.length - 1)).getD 0 + 1 = head.length := by
      simp only [Option.getD_some]
      omega
    simp only [hposition, List.take_length]
    exact ⟨trivial, trivial, hfirst, addr, rfl⟩

theorem Walked.negative {head : List ScullQset} {target : Int} {supply : Supply}
    {found : Followed} (extended : Extends head found.head) (hnode : found.node = none)
    (htarget : target < 0) : Walked head target supply found where
  extended := extended
  reached node hfound := by simp [hnode] at hfound
  stopped _ hitem := absurd hitem (Int.not_le.mpr htarget)
  complete _ hitem := absurd hitem (Int.not_le.mpr htarget)
  enough hfound := absurd hnode hfound

theorem Walked.nowhere {head : List ScullQset} {target : Int} {supply : Supply}
    {found : Followed} (h : Walked head target supply found) (htarget : target < 0) :
    found.node = none := by
  by_contra hfound
  obtain ⟨node, hnode⟩ := Option.ne_none_iff_exists'.mp hfound
  have := (h.reached node hnode).1
  omega

theorem Walked.appended {head : List ScullQset} {target : Int} {supply : Supply}
    {found : Followed} {addr : Addr} (hbeyond : head.length ≤ target)
    (hfirst : (supply 0).isSome)
    (h : Walked (head ++ [⟨addr, none⟩]) target (supply.drop 1) found) :
    Walked head target supply found := by
  have hlength : (head ++ [⟨addr, none⟩] : List ScullQset).length = head.length + 1 := by simp
  have hmissing : missing head target = missing (head ++ [⟨addr, none⟩]) target + 1 := by
    unfold missing
    omega
  constructor
  · exact ((Extends.refl head).snoc addr).trans h.extended
  · intro node hnode
    have := h.reached node hnode
    omega
  · exact h.stopped
  · intro hsupply htarget
    rw [hmissing, supply.enough_succ] at hsupply
    obtain ⟨hfound, hrest⟩ := h.complete hsupply.2 htarget
    rw [hrest, Supply.drop_drop, hmissing]
    exact ⟨hfound, rfl⟩
  · intro hfound
    rw [hmissing, supply.enough_succ]
    exact ⟨hfirst, h.enough hfound⟩

theorem walked_passed {head : List ScullQset} {passed : Nat} (hpassed : passed ≤ head.length)
    {prev : Option Nat} (hprev : prev = if passed = 0 then none else some (passed - 1))
    (supply : Supply) : Walked head (passed - 1) supply ⟨prev, head, supply⟩ := by
  have hnothing : missing head (passed - 1) = 0 := by
    unfold missing
    omega
  by_cases hzero : passed = 0
  · rw [if_pos hzero] at hprev
    exact .negative (.refl head) hprev (by omega)
  · rw [if_neg hzero] at hprev
    subst hprev
    constructor
    · exact .refl head
    · intro node hnode
      cases hnode
      dsimp only
      omega
    · simp
    · intro _ _
      rw [hnothing]
      exact ⟨by simp, rfl⟩
    · intro _
      rw [hnothing]
      exact supply.enough_zero

/-- Induction on the rounds left; the walk has passed `passed` nodes, so `prev`
is the last of these and `qs` the next one if the list goes on. -/
theorem followLoop_safe (quantum qset : Int) (rounds : Nat) :
    ∀ (head : List ScullQset) (passed : Nat) (prev : Option Nat) (supply : Supply),
      0 < head.length → passed ≤ head.length →
      prev = (if passed = 0 then none else some (passed - 1)) →
      (followLoop head prev (if passed < head.length then some passed else none) supply
        rounds).Safe (Within quantum qset) (Walked head (passed + rounds - 1) supply) := by
  induction rounds with
  | zero =>
    intro head passed prev supply _ hpassed hprev
    rw [Int.natCast_zero, Int.add_zero]
    exact .pure (walked_passed hpassed hprev supply)
  | succ rounds ih =>
    intro head passed prev supply hhead hpassed hprev
    unfold followLoop
    have htarget : (passed : Int) + (rounds + 1 : Nat) - 1 = (passed + 1 : Nat) + rounds - 1 := by
      omega
    rw [htarget]
    by_cases hinside : passed < head.length
    · -- the node is there
      simp only [if_pos hinside, pure_bind]
      exact ih head (passed + 1) (some passed) supply hhead hinside (by simp)
    · -- the list ends here and grows by one node
      have hend : passed = head.length := by omega
      have hprev' : prev = some (head.length - 1) := by rw [hprev, if_neg (by omega), hend]
      simp only [if_neg hinside, hprev']
      refine .bind (appendNode_safe quantum qset hhead supply) ?_
      rintro ⟨node, longer, rest⟩ ⟨hrest, happended⟩
      simp only at hrest happended
      subst hrest
      cases node with
      | none =>
        obtain ⟨hsame, hfailed⟩ := happended
        subst hsame
        have hshort (htarget : (0 : Int) ≤ (passed + 1 : Nat) + rounds - 1)
            (henough : supply.Enough (missing longer ((passed + 1 : Nat) + rounds - 1))) :
            False := by
          have hfirst := henough 0 (by unfold missing; omega)
          rw [hfailed] at hfirst
          cases hfirst
        refine .pure ⟨.refl _, by simp, fun _ _ => ?_, fun henough htarget =>
          (hshort htarget henough).elim, fun hfound => absurd rfl hfound⟩
        dsimp only
        omega
      | some node =>
        obtain ⟨hnode, hfirst, addr, hlonger⟩ := happended
        subst hlonger
        obtain rfl : node = passed := by omega
        have hlength : (head ++ [⟨addr, none⟩] : List ScullQset).length = head.length + 1 := by
          simp
        have hnext := ih (head ++ [⟨addr, none⟩]) (node + 1) (some node) (supply.drop 1)
          (by omega) (by omega) (by simp)
        simp only [hlength] at hnext
        simp only [next, hlength]
        exact hnext.mono fun found h => h.appended (by omega) hfirst

theorem scullFollow_safe (quantum qset : Int) (head : List ScullQset) (item : Int)
    (supply : Supply) :
    (scullFollow head item supply).Safe (Within quantum qset) (Walked head item supply) := by
  -- from a list that is not empty
  have hwalk (first : ScullQset) (others : List ScullQset) (supply : Supply) :
      (followLoop (first :: others) none (some 0) supply (item + 1).toNat).Safe
        (Within quantum qset) (Walked (first :: others) item supply) := by
    have hloop := followLoop_safe quantum qset (item + 1).toNat (first :: others) 0 none supply
      (by simp) (Nat.zero_le _) rfl
    refine hloop.mono ?_
    intro found h
    by_cases hitem : 0 ≤ item
    · have htarget : ((0 : Nat) : Int) + ((item + 1).toNat : Nat) - 1 = item := by omega
      rwa [htarget] at h
    · exact .negative h.extended (h.nowhere (by omega)) (by omega)
  cases head with
  | cons first others => exact hwalk first others supply
  | nil =>
    refine .bind (alloc?_safe quantum qset supply .kmalloc sizeofQset) ?_
    rintro ⟨qs, rest⟩ ⟨hrest, hqs⟩
    obtain rfl : rest = supply.drop 1 := hrest
    have hqs : qs.isSome ↔ (supply 0).isSome := by simpa [obtainable_node] using hqs
    cases qs with
    | none =>
      refine .pure ⟨.refl [], by simp, fun _ hitem => hitem, fun henough hitem => ?_,
        fun hfound => absurd rfl hfound⟩
      have hfirst := henough 0 (by simp only [missing, List.length_nil]; omega)
      simp [hfirst] at hqs
    | some addr =>
      have hfirst : (supply 0).isSome := by simpa using hqs
      refine (hwalk ⟨addr, none⟩ [] (supply.drop 1)).mono ?_
      intro found h
      by_cases hitem : 0 ≤ item
      · exact @Walked.appended [] _ _ _ addr hitem hfirst h
      · have hgrown := ((Extends.refl []).snoc addr).trans h.extended
        exact .negative hgrown (h.nowhere (by omega)) (by omega)

/-- What a walk to an item that is not negative comes to: the node with that index, which
is there or created with all before it, or `NULL` when one of the nodes it lacks cannot be
allocated. -/
structure Found (head : List ScullQset) (item : Nat) (supply : Supply) (found : Followed) :
    Prop where
  extended : Extends head found.head
  node : ∀ node, found.node = some node →
    node = item ∧ found.head.length = max head.length (item + 1)
  null : found.node = none → head.length ≤ found.head.length ∧ found.head.length ≤ item
  null_iff : found.node = none ↔ ∃ k < missing head item, supply k = none

theorem Walked.found {head : List ScullQset} {item : Nat} {supply : Supply} {found : Followed}
    (h : Walked head item supply found) : Found head item supply found where
  extended := h.extended
  node node hnode := by
    obtain ⟨hitem, hlength⟩ := h.reached node hnode
    obtain rfl : node = item := by exact_mod_cast hitem
    exact ⟨rfl, hlength⟩
  null hnull := by
    have hstopped := h.stopped hnull (Int.natCast_nonneg item)
    exact ⟨h.extended.length_le, by exact_mod_cast hstopped⟩
  null_iff := by
    constructor
    · intro hnull
      by_contra hnone
      push Not at hnone
      have enough : supply.Enough (missing head item) := fun k hk =>
        Option.isSome_iff_ne_none.mpr (hnone k hk)
      exact (h.complete enough (Int.natCast_nonneg item)).1 hnull
    · rintro ⟨k, hk, hfailed⟩
      by_contra hnode
      have hsome := h.enough hnode k hk
      rw [hfailed] at hsome
      cases hsome

/-! ## Addresses -/

theorem rest_bounds {quantum qset : Nat} (h : Divides quantum qset) {pos : Int}
    (hpos : 0 ≤ pos) :
    0 ≤ pos.tmod (int32 (quantum * qset)) ∧ pos.tmod (int32 (quantum * qset)) < 2147483648 ∧
      pos.tmod (int32 (quantum * qset)) < quantum * qset := by
  obtain ⟨hquantum, -, hqset, -, hsize⟩ := h
  have hproduct : (0 : Int) ≤ quantum * qset := Int.mul_nonneg (by omega) (by omega)
  have hbounds := int32_bounds (quantum * qset)
  have hle := int32_abs_le hproduct
  generalize int32 (quantum * qset) = size at hsize hbounds hle ⊢
  have hlow : 0 ≤ pos.tmod size := Int.tmod_nonneg size hpos
  have hlt : (pos.tmod size).natAbs < size.natAbs := by
    rw [Int.natAbs_tmod]
    exact Nat.mod_lt _ (Int.natAbs_pos.mpr hsize)
  exact ⟨hlow, by omega, by omega⟩

def InGeometry (quantum qset : Nat) (addr : Address) : Prop :=
  0 ≤ addr.sPos ∧ addr.sPos < qset ∧ 0 ≤ addr.qPos ∧ addr.qPos < quantum

theorem address_safe_of_rest (width height : Int) {size : Int} (hsize : size ≠ 0) {quantum qset : Nat}
    (hquantum : (quantum : Int) ≠ 0) {pos : Int} (hlow : 0 ≤ pos.tmod size)
    (hint : pos.tmod size < 2147483648) (hhigh : pos.tmod size < quantum * qset) :
    (address size quantum pos).Safe (Within width height) (InGeometry quantum qset) := by
  have hrest : int32 (pos.tmod size) = pos.tmod size := int32_eq_self (by omega) hint
  unfold address
  refine .bind (touch_safe hsize) fun _ _ => .bind (touch_safe hquantum) fun _ _ => .pure ?_
  rw [hrest]
  refine ⟨Int.tdiv_nonneg hlow (by omega), ?_, Int.tmod_nonneg _ hlow,
    Int.tmod_lt_of_pos _ (by omega)⟩
  dsimp only
  rw [Int.tdiv_eq_ediv_of_nonneg hlow]
  exact Int.ediv_lt_of_lt_mul (by omega) (by rw [Int.mul_comm]; exact hhigh)

theorem address_safe (width height : Int) {quantum qset : Nat} (h : Divides quantum qset) {pos : Int}
    (hpos : 0 ≤ pos) :
    (address (int32 (quantum * qset)) quantum pos).Safe (Within width height)
      (InGeometry quantum qset) := by
  obtain ⟨hlow, hint, hhigh⟩ := rest_bounds h hpos
  have hquantum : (quantum : Int) ≠ 0 := by
    have := h.1
    omega
  exact address_safe_of_rest width height h.2.2.2.2 hquantum hlow hint hhigh

def Located (quantum qset : Nat) (pos : Int) (addr : Address) : Prop :=
  InGeometry quantum qset addr ∧
    (address (int32 (quantum * qset)) quantum pos).result = some addr

theorem address_located (width height : Int) {quantum qset : Nat} (h : Divides quantum qset) {pos : Int}
    (hpos : 0 ≤ pos) :
    (address (int32 (quantum * qset)) quantum pos).Safe (Within width height)
      (Located quantum qset pos) :=
  (address_safe width height h hpos).and_returns fun _ hreturned => hreturned

theorem address_sound {quantum qset : Nat} (h : Sound quantum qset) (p : Nat) :
    (address (int32 (quantum * qset)) quantum p).result =
      some ⟨int32 (p / (quantum * qset) : Nat), (p % (quantum * qset) / quantum : Nat),
        (p % quantum : Nat)⟩ := by
  have hitem := h.item_pos
  have hsize : (quantum * qset : Int) ≠ 0 := by omega
  have hquantum : (quantum : Int) ≠ 0 := by
    have := h.1
    omega
  have hrest : int32 (p % (quantum * qset) : Nat) = (p % (quantum * qset) : Nat) := by
    have hlt : p % (quantum * qset) < quantum * qset := Nat.mod_lt _ (by exact_mod_cast hitem)
    have hint : quantum * qset < 2147483648 := by exact_mod_cast h.2.2
    exact int32_eq_self (by omega) (by omega)
  rw [h.int32_eq]
  unfold address
  have hdiv : (p : Int).tdiv (quantum * qset) = (p / (quantum * qset) : Nat) := by
    rw [← Int.natCast_mul, ← Int.ofNat_tdiv]
  have hmod : (p : Int).tmod (quantum * qset) = (p % (quantum * qset) : Nat) := by
    rw [← Int.natCast_mul, ← Int.ofNat_tmod]
  rw [hdiv, hmod, hrest]
  dsimp only
  rw [← Int.ofNat_tdiv, ← Int.ofNat_tmod, mod_mod_width]
  rw [Traced.result_bind, Traced.result_guarded (by simpa [Event.allowed] using hsize),
    Option.bind_some, Traced.result_bind,
    Traced.result_guarded (by simpa [Event.allowed] using hquantum), Option.bind_some,
    Traced.result_pure]

end MyDrivers.Store
