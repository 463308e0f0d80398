import PowerGuru.Devices.OutbackWire

/-!
# `outback::parse` and `calcChecksum` on strings of any length

`parse` stores its numbers as it reads them and takes nothing back, so a string that ends
too early leaves the object with the numbers that started inside it.
-/
namespace PowerGuru.Devices.OutbackFailure

open Lib.Bytes Lib.Strtol Lib.Exec Common Serial OutbackParse OutbackChecksum OutbackWire

/-- A number of the packet and the member it is stored in. -/
structure Slot where
  pos : Nat
  len : Nat
  member : Outback → Int
  put : Int → Outback → Outback
  put_member : ∀ o, put (member o) o = o := by intro o; rfl
  put_type : ∀ v o, (put v o).type = o.type := by intro v o; rfl

/-- What is read of a packet of an MX, in order. -/
def mxSlots : List Slot :=
  [{ pos := 3, len := 2, member := Outback.inverterCurrent
     put := fun v o => { o with inverterCurrent := v } },
    { pos := 6, len := 2, member := Outback.chargeCurrent
      put := fun v o => { o with chargeCurrent := v } },
    { pos := 9, len := 2, member := Outback.pvCurrent
      put := fun v o => { o with pvCurrent := v } },
    { pos := 13, len := 3, member := Outback.pvInputVoltage
      put := fun v o => { o with pvInputVoltage := v } },
    { pos := 16, len := 3, member := Outback.dailyKwh
      put := fun v o => { o with dailyKwh := v } },
    { pos := 23, len := 2, member := Outback.auxMode
      put := fun v o => { o with auxMode := v } },
    { pos := 30, len := 2, member := Outback.chargeMode
      put := fun v o => { o with chargeMode := v } },
    { pos := 33, len := 3, member := Outback.batteryVoltage
      put := fun v o => { o with batteryVoltage := v } },
    { pos := 45, len := 3, member := Outback.checksum
      put := fun v o => { o with checksum := v } }]

/-- The new value if the number starts inside the packet. -/
def reached (packet : List Byte) (pos len : Nat) (old : Int) : Int :=
  if pos ≤ packet.length then slotValue packet pos len else old

/-- The members after as much of the packet as there is. -/
def partly (o : Outback) (packet : List Byte) : Outback :=
  { o with
    type := .mx
    address := packet.getD 1 NUL
    inverterCurrent := reached packet 3 2 o.inverterCurrent
    chargeCurrent := reached packet 6 2 o.chargeCurrent
    pvCurrent := reached packet 9 2 o.pvCurrent
    pvInputVoltage := reached packet 13 3 o.pvInputVoltage
    dailyKwh := reached packet 16 3 o.dailyKwh
    auxMode := reached packet 23 2 o.auxMode
    chargeMode := reached packet 30 2 o.chargeMode
    batteryVoltage := reached packet 33 3 o.batteryVoltage
    checksum := reached packet 45 3 o.checksum }

/-! ## One slot after the other -/

def storeAll (packet : List Byte) : List Slot → Parsing Unit
  | [] => pure ()
  | s :: ss => do
      store packet s.pos s.len s.put
      storeAll packet ss

def putAll (packet : List Byte) (ss : List Slot) (o : Outback) : Outback :=
  ss.foldl (fun o s => s.put (reached packet s.pos s.len (s.member o)) o) o

/-- Slots whose members have their values already, or that start behind the packet. -/
theorem putAll_same {packet : List Byte} {ss : List Slot} {o : Outback}
    (h : ∀ s ∈ ss, s.pos ≤ packet.length → s.member o = slotValue packet s.pos s.len) :
    putAll packet ss o = o := by
  induction ss with
  | nil => rfl
  | cons s ss ih =>
    have hs : reached packet s.pos s.len (s.member o) = s.member o := by
      unfold reached
      split
      · next hpos => exact (h s List.mem_cons_self hpos).symm
      · rfl
    rw [putAll, List.foldl_cons, hs, s.put_member]
    exact ih fun t ht => h t (List.mem_cons_of_mem s ht)

/-- The first slot that starts behind the packet ends the run, and so would all later ones. -/
theorem exec_storeAll (packet : List Byte) {ss : List Slot}
    (h : ss.Pairwise fun s t => s.pos ≤ t.pos) (o : Outback) :
    (exec (storeAll packet ss) o).2 = putAll packet ss o ∧
      ((∀ s ∈ ss, s.pos ≤ packet.length) → (exec (storeAll packet ss) o).1 = .ok ()) ∧
      ((∃ s ∈ ss, packet.length < s.pos) →
        (exec (storeAll packet ss) o).1 = .error .outOfRange) := by
  induction ss generalizing o with
  | nil => exact ⟨rfl, fun _ => rfl, fun h => absurd h (by simp)⟩
  | cons s ss ih =>
    obtain ⟨hs, hss⟩ := List.pairwise_cons.mp h
    by_cases hpos : s.pos ≤ packet.length
    · obtain ⟨hstate, hok, herror⟩ := ih hss (s.put (slotValue packet s.pos s.len) o)
      have hvalue : reached packet s.pos s.len (s.member o) = slotValue packet s.pos s.len :=
        if_pos hpos
      rw [storeAll, exec_bind_ok (exec_store s.len s.put o hpos)]
      refine ⟨?_, ?_, ?_⟩
      · rw [hstate, putAll, putAll, List.foldl_cons, hvalue]
      · exact fun hall => hok fun t ht => hall t (List.mem_cons_of_mem s ht)
      · rintro ⟨t, ht, hlt⟩
        rcases List.mem_cons.mp ht with rfl | ht
        · exact absurd hpos (Nat.not_le.mpr hlt)
        · exact herror ⟨t, ht, hlt⟩
    · have hshort := Nat.not_le.mp hpos
      rw [storeAll, exec_bind_error (exec_store_short s.len s.put o hshort)]
      refine ⟨(putAll_same ?_).symm, fun hall => absurd (hall s List.mem_cons_self) hpos,
        fun _ => rfl⟩
      intro t ht hle
      have hst : s.pos ≤ t.pos := by
        rcases List.mem_cons.mp ht with rfl | ht
        · exact le_refl _
        · exact hs t ht
      exact absurd (hst.trans hle) hpos

/-! ## The slots that `parse` reads -/

section
variable {packet : List Byte} {o : Outback} {f g : Unit → Parsing Unit}

theorem exec_byType_mx (ht : o.type = .mx) (a b : Parsing Unit) :
    exec (byType a b >>= f) o = exec (b >>= f) o := by
  rw [exec_bind, exec_byType, ht, if_neg (by simp), exec_bind]

theorem exec_store_congr (s : Slot) (h : ∀ o, o.type = .mx → exec (f ()) o = exec (g ()) o)
    (ht : o.type = .mx) :
    exec (store packet s.pos s.len s.put >>= f) o =
      exec (store packet s.pos s.len s.put >>= g) o := by
  by_cases hpos : s.pos ≤ packet.length
  · rw [exec_bind_ok (exec_store s.len s.put o hpos), exec_bind_ok (exec_store s.len s.put o hpos)]
    exact h _ ((s.put_type _ o).trans ht)
  · have hshort := exec_store_short s.len s.put o (Nat.not_le.mp hpos)
    rw [exec_bind_error hshort, exec_bind_error hshort]

end

theorem exec_bind_unit (x : Parsing Unit) (o : Outback) :
    exec (x >>= fun _ => pure ()) o = exec x o := by
  rw [exec_bind]
  cases hx : exec x o with
  | mk r o' => cases r <;> rfl

/-- On an object classified MX these are the slots of an MX. -/
theorem readSlots_eq (packet : List Byte) {o : Outback} (ht : o.type = .mx) :
    exec (readSlots packet) o = exec (storeAll packet mxSlots) o := by
  refine exec_store_congr mxSlots[0] (fun o ht => ?_) ht
  refine exec_store_congr mxSlots[1] (fun o ht => ?_) ht
  rw [exec_byType_mx ht]
  refine exec_store_congr mxSlots[2] (fun o ht => ?_) ht
  rw [exec_byType_mx ht]
  refine exec_store_congr mxSlots[3] (fun o ht => ?_) ht
  rw [exec_byType_mx ht]
  refine exec_store_congr mxSlots[4] (fun o ht => ?_) ht
  rw [exec_byType_mx ht]
  change exec (byType _ _ >>= _) o = _
  rw [exec_byType_mx ht]
  refine exec_store_congr mxSlots[5] (fun o ht => ?_) ht
  rw [exec_byType_mx ht]
  change exec (byType _ _ >>= _) o = _
  rw [exec_byType_mx ht]
  refine exec_store_congr mxSlots[6] (fun o ht => ?_) ht
  refine exec_store_congr mxSlots[7] (fun o ht => ?_) ht
  rw [exec_byType_mx ht]
  change exec (byType _ _ >>= _) o = _
  rw [exec_byType_mx ht]
  exact (exec_bind_unit _ o).symm

theorem mxSlots_sorted : mxSlots.Pairwise fun s t => s.pos ≤ t.pos := by
  simp [mxSlots]

theorem mxSlots_le : ∀ s ∈ mxSlots, s.pos ≤ 45 := by
  simp [mxSlots]

/-- The object behind the address check. -/
def classified (o : Outback) (packet : List Byte) : Outback :=
  { o with type := .mx, address := packet.getD 1 NUL }

theorem putAll_mxSlots (packet : List Byte) (o : Outback) :
    putAll packet mxSlots (classified o packet) = partly o packet := rfl

/-- A good address: the numbers that start inside the packet are stored. -/
theorem parse_good_address (o : Outback) {data : List Byte} (ha : addressOk (cstr data)) :
    parse o data = (if 45 ≤ (cstr data).length then .ok .success else .error .outOfRange,
      partly o (cstr data)) := by
  obtain ⟨hstate, hok, herror⟩ :=
    exec_storeAll (cstr data) mxSlots_sorted (classified o (cstr data))
  have hrun : parse o data = exec (readSlots (cstr data) >>= fun _ => pure .success)
      (classified o (cstr data)) := parse_addressed o ha
  have hslots : exec (readSlots (cstr data)) (classified o (cstr data)) =
      exec (storeAll (cstr data) mxSlots) (classified o (cstr data)) := readSlots_eq _ rfl
  by_cases h45 : 45 ≤ (cstr data).length
  · have hend : exec (readSlots (cstr data)) (classified o (cstr data)) =
        (.ok (), partly o (cstr data)) :=
      hslots.trans (Prod.ext (hok fun s hs => (mxSlots_le s hs).trans h45) hstate)
    rw [hrun, exec_bind_ok hend, if_pos h45]
    rfl
  · have hlast : ∃ s ∈ mxSlots, (cstr data).length < s.pos :=
      ⟨mxSlots[8], List.getElem_mem _, Nat.not_le.mp h45⟩
    have hend : exec (readSlots (cstr data)) (classified o (cstr data)) =
        (.error .outOfRange, partly o (cstr data)) :=
      hslots.trans (Prod.ext (herror hlast) hstate)
    rw [hrun, exec_bind_error hend, if_neg h45]

theorem parse_success_iff (o : Outback) (data : List Byte) :
    (parse o data).1 = .ok .success ↔ addressOk (cstr data) ∧ 45 ≤ (cstr data).length := by
  by_cases hne : cstr data = []
  · rw [parse_empty o hne, hne]
    simp
  by_cases ha : addressOk (cstr data)
  · rw [parse_good_address o ha]
    simp [ha]
  · rw [parse_bad_address o (List.length_pos_iff.mpr hne) ha]
    simp [ha]

/-! ## What a failed call leaves -/

/-- A call that does not succeed changes nothing. -/
def Atomic (o : Outback) (data : List Byte) : Prop :=
  (parse o data).1 ≠ .ok .success → (parse o data).2 = o

/-- A rejected address is kept. -/
theorem address_kept : ¬ ∀ (o : Outback) (data : List Byte), Atomic o data := by
  intro h
  have hsame := h {} (bytes "zz") (by decide)
  exact absurd (congrArg Outback.address hsame) (by decide)

/-- An error leaves the address, and a string that ends too early what it had of a packet.
Only the index into an empty string fails otherwise. -/
theorem parse_failed (o : Outback) (data : List Byte) :
    ((parse o data).1 = .ok .error →
        (parse o data).2 = { o with address := (cstr data).getD 1 NUL }) ∧
      ((parse o data).1 = .error .outOfRange → (parse o data).2 = partly o (cstr data)) ∧
      ((parse o data).1 = .error .badIndex ↔ cstr data = []) := by
  by_cases hne : cstr data = []
  · rw [parse_empty o hne]
    simp [hne]
  by_cases ha : addressOk (cstr data)
  · rw [parse_good_address o ha]
    by_cases h45 : 45 ≤ (cstr data).length <;> simp [h45, hne]
  · rw [parse_bad_address o (List.length_pos_iff.mpr hne) ha]
    simp [hne]

theorem member_partly (o : Outback) (packet : List Byte) :
    ∀ s ∈ mxSlots, s.member (partly o packet) = reached packet s.pos s.len (s.member o) := by
  simp [mxSlots, partly]

theorem partly_eq_self_iff (o : Outback) (packet : List Byte) :
    partly o packet = o ↔ o.address = packet.getD 1 NUL ∧ o.type = .mx ∧
      ∀ s ∈ mxSlots, s.pos ≤ packet.length → s.member o = slotValue packet s.pos s.len := by
  constructor
  · intro h
    refine ⟨(congrArg Outback.address h).symm, (congrArg Outback.type h).symm, ?_⟩
    intro s hs hpos
    have hmember := member_partly o packet s hs
    rw [h, reached, if_pos hpos] at hmember
    exact hmember
  · rintro ⟨haddress, htype, hslots⟩
    have hsame : classified o packet = o := by
      rw [classified, ← haddress, ← htype]
    rw [← putAll_mxSlots, hsame, putAll_same hslots]

/-- What a failed call leaves is the object before it only if everything it stored was there
already. -/
theorem atomic_iff (o : Outback) {data : List Byte} (hne : cstr data ≠ []) :
    Atomic o data ↔ (addressOk (cstr data) ∧ 45 ≤ (cstr data).length) ∨
      (o.address = (cstr data).getD 1 NUL ∧ (addressOk (cstr data) → o.type = .mx ∧
        ∀ s ∈ mxSlots, s.pos ≤ (cstr data).length →
          s.member o = slotValue (cstr data) s.pos s.len)) := by
  have hsuccess := parse_success_iff o data
  rw [Atomic, ne_eq, hsuccess]
  by_cases ha : addressOk (cstr data)
  · rw [parse_good_address o ha, partly_eq_self_iff]
    simp only [ha, true_and, forall_const]
    tauto
  · rw [parse_bad_address o (List.length_pos_iff.mpr hne) ha]
    simp only [ha, false_and, not_false_eq_true, forall_const, false_or, IsEmpty.forall_iff,
      and_true]
    constructor
    · intro h
      exact (congrArg Outback.address h).symm
    · intro h
      rw [← h]

/-! ## Positions inside the string -/

/-- `calcChecksum` with every index checked against the string: the field is read first,
then the do-while loop runs. -/
def calcChecksumChecked (packet : List Byte) : Except Fault Retcode := do
  let field ← [45, 46, 47].mapM (charAt packet)
  let summed ← (List.range 45).mapM (charAt packet)
  let chk_field := toInt (strtol (cstr (field.filter (· != 48))) 0)
  return if (summed.map weight).sum ≠ chk_field then .error else .success

theorem mapM_charAt {packet : List Byte} {is : List Nat} (h : ∀ i ∈ is, i ≤ packet.length) :
    is.mapM (charAt packet) = .ok (is.map fun i => packet.getD i NUL) := by
  induction is with
  | nil => rfl
  | cons i is ih =>
    have hi : charAt packet i = .ok (packet.getD i NUL) := if_pos (h i List.mem_cons_self)
    rw [List.mapM_cons, hi, ih fun j hj => h j (List.mem_cons_of_mem i hj)]
    rfl

theorem mapM_charAt_error {packet : List Byte} {is : List Nat}
    (h : ∃ i ∈ is, packet.length < i) : is.mapM (charAt packet) = .error .badIndex := by
  induction is with
  | nil => exact absurd h (by simp)
  | cons i is ih =>
    rw [List.mapM_cons]
    by_cases hi : i ≤ packet.length
    · obtain ⟨j, hj, hlt⟩ := h
      have hrest : ∃ j ∈ is, packet.length < j := by
        rcases List.mem_cons.mp hj with rfl | hj
        · exact absurd hi (Nat.not_le.mpr hlt)
        · exact ⟨j, hj, hlt⟩
      have hok : charAt packet i = .ok (packet.getD i NUL) := if_pos hi
      rw [hok, ih hrest]
      rfl
    · have herror : charAt packet i = .error .badIndex := if_neg hi
      rw [herror]
      rfl

theorem stored_eq (packet : List Byte) (beyond : Nat → Byte) {i : Nat} (h : i ≤ packet.length) :
    stored packet beyond i = packet.getD i NUL := by
  unfold stored
  split
  · rfl
  · next hlt =>
    obtain rfl : i = packet.length := le_antisymm h (Nat.not_lt.mp hlt)
    simp

/-- Inside the string it is what the memory behind the pointer gives. -/
theorem calcChecksumChecked_long {packet : List Byte} (h : 47 ≤ packet.length)
    (beyond : Nat → Byte) :
    calcChecksumChecked packet = .ok (calcChecksum (stored packet beyond)) := by
  have hfield : ∀ i ∈ [45, 46, 47], i ≤ packet.length := by
    intro i hi
    simp only [List.mem_cons, List.not_mem_nil, or_false] at hi
    omega
  have hsummed : ∀ i ∈ List.range 45, i ≤ packet.length := by
    intro i hi
    have := List.mem_range.mp hi
    omega
  have hbytes : ∀ {is : List Nat}, (∀ i ∈ is, i ≤ packet.length) →
      (is.map fun i => packet.getD i NUL) = is.map (stored packet beyond) :=
    fun hall => List.map_congr_left fun i hi => (stored_eq packet beyond (hall i hi)).symm
  rw [calcChecksumChecked, mapM_charAt hfield, mapM_charAt hsummed, hbytes hfield, hbytes hsummed]
  simp only [calcChecksum, checksumOf, chkField]
  rfl

theorem calcChecksumChecked_short {packet : List Byte} (h : packet.length < 47) :
    calcChecksumChecked packet = .error .badIndex := by
  rw [calcChecksumChecked, mapM_charAt_error ⟨47, by simp, h⟩]
  rfl

/-- What `readSerial` can return. -/
structure Received where
  text : List Byte
  nonempty : 1 ≤ text.length := by decide
  fits : text.length ≤ PACKET_SIZE := by decide
  nul : NUL ∉ text := by decide
  cr : CR ∉ text := by decide
  lf : LF ∉ text := by decide

theorem Received.cstr_text (r : Received) : cstr r.text = r.text := cstr_of_not_mem r.nul

def zeroed : List Byte := List.replicate (PACKET_SIZE + 1) NUL

/-- The buffer stays zeroed until something that is kept is copied into it. -/
theorem readLoop_buffer (retries : Nat) (port : Nat → Attempt) (ret : Int) :
    (readLoop PACKET_SIZE retries port ret zeroed).2 = zeroed ∨
      ∃ i bs, (port i).read = .bytes bs ∧
        (readLoop PACKET_SIZE retries port ret zeroed).2 = copied (bs.filter keeps) zeroed := by
  have hcleared : cleared PACKET_SIZE zeroed = zeroed := cleared_replicate _ _
  induction retries generalizing port ret with
  | zero => exact Or.inl rfl
  | succ retries ih =>
    have hlater : ∀ ret, (readLoop PACKET_SIZE retries (fun i => port (i + 1)) ret zeroed).2 =
        zeroed ∨ ∃ i bs, (port i).read = .bytes bs ∧
          (readLoop PACKET_SIZE retries (fun i => port (i + 1)) ret zeroed).2 =
            copied (bs.filter keeps) zeroed := by
      intro ret
      rcases ih (fun i => port (i + 1)) ret with hz | ⟨i, bs, hread, hbuf⟩
      · exact Or.inl hz
      · exact Or.inr ⟨i + 1, bs, hread, hbuf⟩
    rw [readLoop, hcleared]
    split
    · exact Or.inl rfl
    · exact Or.inl rfl
    · exact hlater (-1)
    · next bs hread _ _ =>
      by_cases hdata : bs.filter keeps = []
      · rw [if_pos hdata]
        exact hlater bs.length
      · rw [if_neg hdata]
        exact Or.inr ⟨0, bs, hread, rfl⟩

theorem cstr_copied_zeroed {data : List Byte} (h : data.length ≤ PACKET_SIZE) :
    cstr (copied data zeroed) = cstr data := by
  obtain ⟨rest, hrest⟩ : ∃ rest, zeroed.drop data.length = NUL :: rest := by
    rw [zeroed, List.drop_replicate]
    exact ⟨List.replicate (PACKET_SIZE - data.length) NUL, by
      rw [← List.replicate_succ]
      congr 1
      omega⟩
  rw [copied, hrest]
  by_cases hn : NUL ∈ data
  · obtain ⟨t, ht⟩ := eq_cstr_append hn
    rw [ht, List.append_assoc, List.cons_append, cstr_append_nul _ (nul_not_mem_cstr data),
      cstr_append_nul _ (nul_not_mem_cstr data)]
  · rw [cstr_append_nul _ hn, cstr_of_not_mem hn]

/-- Reads of at most a packet give such strings. -/
theorem readSerial_received {uartfd : Int} {port : Nat → Attempt}
    (hfits : ∀ i bs, (port i).read = .bytes bs → bs.length ≤ PACKET_SIZE)
    (hne : readSerial uartfd port ≠ []) : ∃ r : Received, r.text = readSerial uartfd port := by
  have hzero : cstr zeroed = [] := rfl
  unfold readSerial Serial.read at hne ⊢
  by_cases hfd : 0 < uartfd
  · rw [if_pos hfd] at hne ⊢
    dsimp only at hne ⊢
    split at hne
    · next hret =>
      rw [if_pos hret]
      rcases readLoop_buffer 2 port (-1) with hz | ⟨i, bs, hread, hbuf⟩
      · rw [zeroed] at hz
        rw [hz] at hne
        exact absurd hzero hne
      · have hlength : (bs.filter keeps).length ≤ PACKET_SIZE :=
          (List.length_filter_le _ _).trans (hfits i bs hread)
        have htext := cstr_copied_zeroed hlength
        rw [← hbuf, zeroed] at htext
        rw [htext] at hne ⊢
        have hmem : ∀ b ∈ cstr (bs.filter keeps), keeps b = true :=
          fun b hb => (List.mem_filter.mp ((List.takeWhile_prefix _).subset hb)).2
        refine ⟨⟨_, List.length_pos_iff.mpr hne, ?_, nul_not_mem_cstr _, ?_, ?_⟩, rfl⟩
        · exact ((List.takeWhile_prefix _).length_le).trans hlength
        · exact fun h => absurd (hmem CR h) (by decide)
        · exact fun h => absurd (hmem LF h) (by decide)
    · exact absurd rfl hne
  · rw [if_neg hfd] at hne
    exact absurd rfl hne

/-- Both functions return a code, whatever the object holds. -/
def Received.Handled (r : Received) : Prop :=
  (∃ code, calcChecksumChecked r.text = .ok code) ∧
    ∀ o : Outback, ∃ code, (parse o r.text).1 = .ok code

theorem calcChecksum_returns_iff (packet : List Byte) :
    (∃ code, calcChecksumChecked packet = .ok code) ↔ 47 ≤ packet.length := by
  by_cases h : 47 ≤ packet.length
  · rw [calcChecksumChecked_long h fun _ => NUL]
    simp [h]
  · rw [calcChecksumChecked_short (Nat.not_le.mp h)]
    simp [h]

theorem parse_returns_iff (o : Outback) {data : List Byte} (hne : cstr data ≠ []) :
    (∃ code, (parse o data).1 = .ok code) ↔
      ¬ addressOk (cstr data) ∨ 45 ≤ (cstr data).length := by
  by_cases ha : addressOk (cstr data)
  · rw [parse_good_address o ha]
    by_cases h45 : 45 ≤ (cstr data).length <;> simp [ha, h45]
  · rw [parse_bad_address o (List.length_pos_iff.mpr hne) ha]
    simp [ha]

/-- An MX that stopped after its address. -/
def cutOff : Received where
  text := bytes "0B"

/-- It can arrive, and `substr` throws. -/
theorem cutOff_throws :
    readSerial 3 (delivers cutOff.text idle) = cutOff.text ∧
      (parse {} cutOff.text).1 = .error .outOfRange ∧ ¬ cutOff.Handled := by
  have hthrow : (parse {} cutOff.text).1 = .error .outOfRange := by decide
  refine ⟨by decide, hthrow, ?_⟩
  intro h
  obtain ⟨code, hcode⟩ := h.2 {}
  rw [hthrow] at hcode
  exact absurd hcode (by simp)

/-- Strings are rejected or accepted without harm exactly from 47 bytes on. -/
theorem handled_iff (r : Received) : r.Handled ↔ 47 ≤ r.text.length := by
  rw [Received.Handled, calcChecksum_returns_iff]
  constructor
  · exact fun h => h.1
  · intro h
    have hne : cstr r.text ≠ [] := by
      rw [r.cstr_text]
      exact List.length_pos_iff.mp r.nonempty
    refine ⟨h, fun o => (parse_returns_iff o hne).mpr (Or.inr ?_)⟩
    rw [r.cstr_text]
    omega

end PowerGuru.Devices.OutbackFailure
