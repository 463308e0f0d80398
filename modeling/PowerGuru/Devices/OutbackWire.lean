import PowerGuru.Devices.Serial
import PowerGuru.Devices.OutbackChecksum
import PowerGuru.Devices.OutbackFrame

/-!
# From the wire to the members

`Serial::Read` drops the LF that starts a page, so the string `readSerial` returns is
shifted by one byte against the offsets that `parse` and `calcChecksum` use.
-/
namespace PowerGuru.Devices.OutbackWire

open Lib.Bytes Lib.Strtol Common Serial OutbackParse OutbackChecksum OutbackFrame

def PACKET_SIZE : Nat := 49

/-- `buf` is one byte longer than a packet and zeroed; the caller sees a C string. -/
def readSerial (uartfd : Int) (port : Nat → Attempt) : List Byte :=
  let r := read uartfd port PACKET_SIZE (List.replicate (PACKET_SIZE + 1) NUL)
  if 0 < r.1 then cstr r.2 else []

/-- What is left of a page without LF and CR. -/
def body (address : Byte) (slots : List (Nat × Nat)) : List Byte :=
  address :: slots.flatMap fun s => comma :: pad s.1 s.2

theorem keeps_pad {w n : Nat} (hn : n < 10^w) : ∀ b ∈ pad w n, keeps b = true := by
  intro b hb
  obtain ⟨-, hl, hc, ha⟩ := pad_bytes hn b hb
  simp [keeps, hl, hc, ha]

theorem keeps_body {address : Byte} {slots : List (Nat × Nat)} (ha : keeps address = true)
    (hf : Fits slots) : ∀ b ∈ body address slots, keeps b = true := by
  intro b hb
  rcases List.mem_cons.mp hb with rfl | hb
  · exact ha
  · obtain ⟨s, hs, hb⟩ := List.mem_flatMap.mp hb
    rcases List.mem_cons.mp hb with rfl | hb
    · decide
    · exact keeps_pad (hf s hs) b hb

theorem filter_statusPage {address : Byte} {slots : List (Nat × Nat)} (ha : keeps address = true)
    (hf : Fits slots) : (statusPage address slots).filter keeps = body address slots := by
  have hpage : statusPage address slots = LF :: (body address slots ++ [CR]) := rfl
  have hbody : (body address slots).filter keeps = body address slots :=
    List.filter_eq_self.mpr (keeps_body ha hf)
  rw [hpage, List.filter_cons_of_neg (by decide), List.filter_append, hbody]
  simp [show keeps CR = false from rfl]

theorem keeps_address {a : Byte} (h : isFxAddress a = true ∨ isMxAddress a = true) :
    keeps a = true := by
  rw [isFxAddress_iff, isMxAddress_iff] at h
  simp only [UInt8.le_iff_toNat_le, UInt8.reduceToNat] at h
  simp only [keeps, Bool.and_eq_true, decide_eq_true_eq, bne_iff_ne, ne_eq, UInt8.lt_iff_toNat_lt,
    ← UInt8.toNat_inj, LF, CR, UInt8.reduceToNat]
  omega

theorem nul_not_mem_body {address : Byte} {slots : List (Nat × Nat)}
    (ha : isFxAddress address = true ∨ isMxAddress address = true) (hf : Fits slots) :
    NUL ∉ body address slots := by
  intro h
  rw [← filter_statusPage (keeps_address ha) hf] at h
  exact nul_not_mem_statusPage (address_ne_nul ha) hf (List.mem_filter.mp h).1

/-- A page delivered whole reaches the caller without its first and last byte. -/
theorem readSerial_page {uartfd : Int} (hfd : 0 < uartfd) {address : Byte}
    {slots : List (Nat × Nat)} (ha : isFxAddress address = true ∨ isMxAddress address = true)
    (hf : Fits slots) (hl : (body address slots).length < PACKET_SIZE) (later : Nat → Attempt) :
    readSerial uartfd (delivers (statusPage address slots) later) = body address slots := by
  have hfilter := filter_statusPage (keeps_address ha) hf
  have hne : (statusPage address slots).filter keeps ≠ [] := by rw [hfilter]; simp [body]
  have hbody : 0 < (body address slots).length := Nat.succ_pos _
  have hpos : (0 : Int) < (body address slots).length := Int.natCast_pos.mpr hbody
  simp only [readSerial, read_delivers hfd later _ _ hne, hfilter, hpos, if_true]
  exact cstr_copied (nul_not_mem_body ha hf) hl

theorem readSerial_closed {uartfd : Int} (hfd : ¬ 0 < uartfd) (port : Nat → Attempt) :
    readSerial uartfd port = [] := by
  simp [readSerial, Serial.read, hfd]

/-- The second byte of the filtered page is a comma, which is no address. -/
theorem parse_body (o : Outback) {address : Byte} {slot : Nat × Nat} {slots : List (Nat × Nat)}
    (ha : isFxAddress address = true ∨ isMxAddress address = true) (hf : Fits (slot :: slots)) :
    (parse o (body address (slot :: slots))).1 = .ok .error := by
  have hc : cstr (body address (slot :: slots)) = body address (slot :: slots) :=
    cstr_of_not_mem (nul_not_mem_body ha hf)
  have hbad : ¬ addressOk (cstr (body address (slot :: slots))) := by
    rw [hc]
    change ¬ (isFxAddress comma = true ∨ isMxAddress comma = true)
    decide
  rw [parse_bad_address o (by rw [hc]; simp [body]) hbad]

/-- No page gets through `readSerial` and `parse`: an open port loses the start byte,
a closed one everything. -/
theorem parse_readSerial (o : Outback) (uartfd : Int) (later : Nat → Attempt) {address : Byte}
    {slot : Nat × Nat} {slots : List (Nat × Nat)}
    (ha : isFxAddress address = true ∨ isMxAddress address = true) (hf : Fits (slot :: slots))
    (hl : (body address (slot :: slots)).length < PACKET_SIZE) :
    (parse o (readSerial uartfd (delivers (statusPage address (slot :: slots)) later))).1 ≠
      .ok .success := by
  by_cases hfd : 0 < uartfd
  · rw [readSerial_page hfd ha hf hl, parse_body o ha hf]
    simp
  · rw [readSerial_closed hfd, parse_empty o rfl]
    simp

/-- Checksum and fields both survive the way from the wire through `readSerial`. -/
def MxReceived (f : MxFrame) (o : Outback) (uartfd : Int) (later : Nat → Attempt)
    (beyond : Nat → Byte) : Prop :=
  calcChecksum (stored (readSerial uartfd (delivers f.encode later)) beyond) = .success ∧
  f.ParsedFrom o (readSerial uartfd (delivers f.encode later))

def FxReceived (f : FxFrame) (o : Outback) (uartfd : Int) (later : Nat → Attempt)
    (beyond : Nat → Byte) : Prop :=
  calcChecksum (stored (readSerial uartfd (delivers f.encode later)) beyond) = .success ∧
  f.ParsedFrom o (readSerial uartfd (delivers f.encode later))

/-- The checksum of the manual: the characters between the start byte and the checksum. -/
def charSum (page : List Byte) : Int := (((page.drop 1).take 44).map weight).sum

def idle : Nat → Attempt := fun _ => ⟨.timeout, .failed⟩

/-- A page of the manual arrives whole with its checksum right, and is still rejected. -/
theorem sampleFx_not_received :
    charSum sampleFx.encode = sampleFx.checksum ∧ ¬ FxReceived sampleFx {} 3 idle fun _ => NUL := by
  constructor
  · decide
  · intro h
    have hp : (parse {} (readSerial 3 (delivers sampleFx.encode idle))).1 = .ok .error := by decide
    rw [h.2.1] at hp
    exact absurd hp (by decide)

/-- Checksum right or wrong, no page is received: the stored string starts at the address. -/
theorem frames_never_received (o : Outback) (uartfd : Int) (later : Nat → Attempt)
    (beyond : Nat → Byte) :
    (∀ f : MxFrame, ¬ MxReceived f o uartfd later beyond) ∧
      (∀ f : FxFrame, ¬ FxReceived f o uartfd later beyond) := by
  constructor
  · intro f h
    exact parse_readSerial o uartfd later (Or.inr f.address_mx) f.fits
      (by simp [body, PACKET_SIZE]) h.2.1
  · intro f h
    exact parse_readSerial o uartfd later (Or.inl f.address_fx) f.fits
      (by simp [body, PACKET_SIZE]) h.2.1

end PowerGuru.Devices.OutbackWire
