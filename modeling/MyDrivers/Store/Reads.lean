import MyDrivers.Store.Writes

/-! The locked part of `scull_read`, under a snapshot that fits the device. -/
namespace MyDrivers.Store
open Lib Lib.Machine

variable {quantum room qset rows : Nat}

theorem readCount_eq {qPos : Int} (hlow : 0 ≤ qPos) (hhigh : qPos < quantum)
    (hquantum : (quantum : Int) < 2147483648) (qset left : Int) (count : Nat) :
    readCount ⟨quantum, qset, left⟩ qPos count =
      min (min count (uint64 left)) (quantum - qPos.toNat) := by
  unfold readCount
  simp only [uint64_room hlow hhigh hquantum]
  split <;> split <;> omega

def cells (head : List ScullQset) (addr : Address) (count : Nat) : List Byte :=
  (List.range count).map fun k => cell head addr.item.toNat addr.sPos.toNat (addr.qPos.toNat + k)

theorem cells_eq {head : List ScullQset} {addr : Address} {block : Block} {count : Nat}
    (hblock : blockIn head addr.item.toNat addr.sPos.toNat = some block)
    (hfit : addr.qPos.toNat + count ≤ block.bytes.length) :
    (block.bytes.drop addr.qPos.toNat).take count = cells head addr count := by
  unfold cells cell
  rw [hblock]
  apply List.ext_getElem
  · simp only [List.length_take, List.length_drop, List.length_map, List.length_range]
    omega
  · intro k hk _
    have hk : k < count := by
      rw [List.length_take] at hk
      omega
    simp [List.getD_eq_getElem?_getD, show addr.qPos.toNat + k < block.bytes.length by omega]

/-- The ways a read that was not interrupted returns, once past the end-of-file
test; `left` is the remaining size it took before the semaphore. -/
inductive ReadOutcome (quantum : Nat) (dev : ScullDev) (count : Nat) (left pos : Int)
    (accessible : Nat) (addr : Address) (t : Transfer) : Prop where
  | absent (block : addr.item < 0 ∨ blockIn dev.data addr.item.toNat addr.sPos.toNat = none)
      (ret : t.ret = 0) (bytes : t.bytes = []) (pos : t.pos = pos)
  | fault (n : Nat) (hn : n = min (min count (uint64 left)) (quantum - addr.qPos.toNat))
      (block : 0 ≤ addr.item ∧ (blockIn dev.data addr.item.toNat addr.sPos.toNat).isSome)
      (short : accessible < n) (ret : t.ret = -EFAULT)
      (bytes : t.bytes = (cells dev.data addr n).take accessible) (pos : t.pos = pos)
  | done (n : Nat) (hn : n = min (min count (uint64 left)) (quantum - addr.qPos.toNat))
      (block : 0 ≤ addr.item ∧ (blockIn dev.data addr.item.toNat addr.sPos.toNat).isSome)
      (enough : n ≤ accessible) (ret : t.ret = n) (bytes : t.bytes = cells dev.data addr n)
      (pos : t.pos = int64 (pos + n))

structure ReadOut (quantum : Nat) (dev : ScullDev) (count : Nat) (left pos : Int) (env : Env)
    (addr : Address) (t : Transfer) : Prop where
  geometry : t.dev = { dev with data := t.dev.data }
  extended : Extends dev.data t.dev.data
  outcome : ReadOutcome quantum dev count left pos env.accessible addr t

theorem copyOut_safe {dev : ScullDev} {addr : Address} {block : Block} {n : Nat} {pos : Int}
    {accessible : Nat} (hlow : 0 ≤ addr.qPos) (hfit : addr.qPos.toNat + n ≤ room)
    (hroom : (room : Int) < 2147483648) (hlarge : room ≤ block.bytes.length) :
    (copyOut dev addr block n pos accessible).Safe (Within room qset) fun t =>
      let bytes := (block.bytes.drop addr.qPos.toNat).take n
      t = if accessible < n then ⟨-EFAULT, dev, pos, bytes.take accessible⟩
        else ⟨n, dev, int64 (pos + n), bytes⟩ := by
  have hret : int64 (n : Int) = n := int64_eq_self (by omega) (by omega)
  unfold copyOut
  refine .bind (touch_safe ⟨hlow, by omega, by omega⟩) fun _ _ => ?_
  rw [hret]
  split
  · exact .pure rfl
  · exact .pure rfl

theorem scullReadLocked_safe {dev : ScullDev} {count : Nat} {left pos : Int} {env : Env}
    (hroom : (room : Int) < 2147483648) (hle : quantum ≤ room) (hrows : rows ≤ qset)
    (hshaped : Shaped room qset dev.data) (hrun : env.interrupted = false)
    (hsize : pos < dev.size) {known : Address → Prop}
    (hknown : ∀ addr, known addr → InGeometry quantum rows addr)
    (haddress : (address (int32 (quantum * rows)) quantum pos).Safe (Within room qset) known) :
    (scullReadLocked ⟨quantum, rows, left⟩ dev count pos env).Safe (Within room qset) fun t =>
      ∃ addr, known addr ∧ ReadOut quantum dev count left pos env addr t := by
  unfold scullReadLocked
  rw [hrun, if_neg Bool.false_ne_true, if_neg (Int.not_le.mpr hsize)]
  refine .bind haddress fun addr haddr => ?_
  obtain ⟨hslow, hshigh, hqlow, hqhigh⟩ := hknown addr haddr
  refine .bind (scullFollow_safe room qset dev.data addr.item env.supply) fun dptr hwalk => ?_
  have hgrown := hwalk.extended
  cases hslots : dptr.node.bind (slotsAt dptr.head) with
  | none =>
    refine .pure ⟨addr, haddr, rfl, hgrown, .absent ?_ rfl rfl rfl⟩
    by_cases hitem : addr.item < 0
    · exact .inl hitem
    · right
      cases hnode : dptr.node with
      | none =>
        -- the walk fails only beyond the end of the old list
        have hbeyond := hwalk.stopped hnode (by omega)
        have hlength := hgrown.length_le
        rw [blockIn, slotsAt, List.getElem?_eq_none (by omega)]
        rfl
      | some node =>
        have hreached := (hwalk.reached node hnode).1
        rw [hnode, Option.bind_some, hgrown.slotsAt] at hslots
        rw [show addr.item.toNat = node by omega, blockIn, hslots]
        rfl
  | some array =>
    obtain ⟨node, hnode, harray⟩ := Option.bind_eq_some_iff.mp hslots
    have hreached := (hwalk.reached node hnode).1
    have hitem : addr.item.toNat = node := by omega
    have harrayLength := (hgrown.shaped hshaped).slots node array harray
    have hlookup := blockIn_eq_blockAt harray addr.sPos
    rw [hgrown.blockIn, ← hitem] at hlookup
    refine .bind (touch_safe ⟨hslow, by omega, by omega⟩) fun _ _ => ?_
    cases hblock : array.blockAt addr.sPos with
    | none =>
      rw [hblock] at hlookup
      refine .pure ⟨addr, haddr, rfl, hgrown, .absent (.inr hlookup) rfl rfl rfl⟩
    | some block =>
      rw [hblock] at hlookup
      have hlarge := hshaped.blocks _ _ _ hlookup
      have hpresent : 0 ≤ addr.item ∧
          (blockIn dev.data addr.item.toNat addr.sPos.toNat).isSome :=
        ⟨by omega, by rw [hlookup]; rfl⟩
      rw [readCount_eq hqlow hqhigh (by omega)]
      generalize hn : min (min count (uint64 left)) (quantum - addr.qPos.toNat) = n
      have hfit : addr.qPos.toNat + n ≤ block.bytes.length := by omega
      have hbytes := cells_eq hlookup hfit
      refine (copyOut_safe hqlow (by omega) hroom hlarge).mono ?_
      intro t ht
      simp only [hbytes] at ht
      refine ⟨addr, haddr, ?_⟩
      split at ht
      · next hshort =>
        subst ht
        exact ⟨rfl, hgrown, .fault n hn.symm hpresent hshort rfl rfl rfl⟩
      · next hlong =>
        subst ht
        exact ⟨rfl, hgrown, .done n hn.symm hpresent (Nat.le_of_not_lt hlong) rfl rfl rfl⟩

theorem scullRead_interrupted (dev : ScullDev) (count : Nat) (pos : Int) {env : Env}
    (hrun : env.interrupted = true) :
    scullRead dev count pos env = pure ⟨-ERESTARTSYS, dev, pos, []⟩ := by
  unfold scullRead scullReadLocked
  rw [hrun, if_pos rfl]

theorem scullRead_end {dev : ScullDev} (count : Nat) {pos : Int} {env : Env}
    (hrun : env.interrupted = false) (hend : dev.size ≤ pos) :
    scullRead dev count pos env = pure ⟨0, dev, pos, []⟩ := by
  unfold scullRead scullReadLocked
  rw [hrun, if_neg Bool.false_ne_true, if_pos hend]

theorem scullRead_safe {dev : ScullDev} (hdivides : Divides quantum qset)
    (hquantum : dev.quantum = quantum) (hqset : dev.qset = qset)
    (hshaped : Shaped quantum qset dev.data) (count : Nat) {pos : Int} (hpos : 0 ≤ pos)
    (hsize : pos < dev.size) {env : Env} (hrun : env.interrupted = false) :
    (scullRead dev count pos env).Safe (Within quantum qset) fun t =>
      ∃ addr, Located quantum qset pos addr ∧
        ReadOut quantum dev count (int64 (dev.size - pos)) pos env addr t := by
  unfold scullRead readSnapshot
  rw [hquantum, hqset]
  exact scullReadLocked_safe hdivides.2.1 (le_refl _) (le_refl _) hshaped hrun hsize
    (fun addr h => h.1) (address_located quantum qset hdivides hpos)

theorem scullReadLocked_effect (snap : ReadSnapshot) (dev : ScullDev) (count : Nat) (pos : Int)
    (env : Env) : (scullReadLocked snap dev count pos env).Returns fun t =>
      t.dev = { dev with data := t.dev.data } ∧ Extends dev.data t.dev.data := by
  unfold scullReadLocked
  split
  · exact .pure ⟨rfl, .refl _⟩
  split
  · exact .pure ⟨rfl, .refl _⟩
  refine .skip fun addr => ?_
  refine .bind _ (scullFollow_safe 0 0 dev.data addr.item env.supply).returns fun dptr hwalk => ?_
  split
  · exact .pure ⟨rfl, hwalk.extended⟩
  · refine .skip fun _ => ?_
    split
    · exact .pure ⟨rfl, hwalk.extended⟩
    · unfold copyOut
      refine .skip fun _ => ?_
      split
      · exact .pure ⟨rfl, hwalk.extended⟩
      · exact .pure ⟨rfl, hwalk.extended⟩

theorem scullRead_effect (dev : ScullDev) (count : Nat) (pos : Int) (env : Env) :
    (scullRead dev count pos env).Returns fun t =>
      t.dev = { dev with data := t.dev.data } ∧ Extends dev.data t.dev.data :=
  scullReadLocked_effect (readSnapshot dev pos) dev count pos env

structure SameContents (dev dev' : ScullDev) : Prop where
  bytes : ∀ x, byteAt dev' x = byteAt dev x
  size : dev'.size = dev.size
  quantum : dev'.quantum = dev.quantum
  qset : dev'.qset = dev.qset
  order : dev'.order = dev.order
  type : dev'.type = dev.type

theorem sameContents_of_extends {dev dev' : ScullDev}
    (rest : dev' = { dev with data := dev'.data }) (extended : Extends dev.data dev'.data) :
    SameContents dev dev' := by
  refine ⟨?_, ?_, ?_, ?_, ?_, ?_⟩
  · intro x
    unfold byteAt
    rw [extended.cell, rest]
  all_goals rw [rest]

/-- `scull_follow` finds or creates the requested node and nothing else, and follows no
`NULL` on its way; so `scull_read` leaves the device with what it holds. -/
theorem follow_exact (head : List ScullQset) (item : Nat) (supply : Supply) :
    (∀ pointer, .follow pointer ∈ (scullFollow head item supply).trace → pointer.isSome) ∧
    (∃ found, (scullFollow head item supply).result = some found ∧
      Found head item supply found) ∧
    ∀ dev count pos env,
      (scullRead dev count pos env).Returns fun t => SameContents dev t.dev := by
  have hwalk := scullFollow_safe 0 0 head item supply
  refine ⟨?_, ?_, ?_⟩
  · intro pointer hpointer
    exact hwalk.events _ hpointer
  · obtain ⟨found, hfound, hwalked⟩ := hwalk.ends
    exact ⟨found, hfound, hwalked.found⟩
  · intro dev count pos env
    refine (scullRead_effect dev count pos env).mono ?_
    rintro t ⟨rest, extended⟩
    exact sameContents_of_extends rest extended

end MyDrivers.Store
