import PowerGuru.Common
import PowerGuru.Lib.Carry
import PowerGuru.Devices.Onewire
import PowerGuru.Devices.Ownet

/-!
# Whose value a field holds

`Ownet` reads the fields of a record through one string that a failed read leaves alone;
`Onewire` empties it.
-/
namespace PowerGuru.Devices.SensorIsolation

open Common Lib.Bytes Lib.Carry Sensors

section
variable (S : Ownet.Server)

/-- What the server answers for files of one device. -/
def reads (device : List Byte) (files : List String) : List (Option (List Byte)) :=
  files.map fun file => S.get (device ++ bytes file)

def sensorFiles : List String := ["family", "id", "alias"]
def temperatureFiles : List String := ["temperature", "templow", "temphigh"]

/-! ## Records of `Ownet` -/

/-- The `onewire_t` of an entry. -/
def SensorIsolated (entry : List Byte) : Prop :=
  ∀ data, Ownet.sensorOf S entry = some data →
    List.Forall₂ (Own some []) (reads S entry sensorFiles) [data.family, data.id, data.aliasName]

section
variable {S}

theorem carry_of_sensorOf {entry : List Byte} {data : Onewire}
    (h : Ownet.sensorOf S entry = some data) :
    [data.family, data.id, data.aliasName] = carry [] (reads S entry sensorFiles) ∧
      Ownet.getValue S entry (bytes "family") [] ≠ [] := by
  unfold Ownet.sensorOf at h
  by_cases hf : Ownet.getValue S entry (bytes "family") [] = []
  · simp [hf] at h
  · rw [if_neg hf, Option.some.injEq] at h
    rw [← h]
    exact ⟨rfl, hf⟩

theorem sensorIsolated_iff (entry : List Byte) :
    SensorIsolated S entry ↔
      (Ownet.getValue S entry (bytes "family") [] ≠ [] →
        Covered some [] [] (reads S entry sensorFiles)) := by
  have hfields : ∀ held (rs : List (Option (List Byte))),
      fields some held rs = some (carry held rs) := by
    intro held rs
    induction rs generalizing held with
    | nil => rfl
    | cons r rs ih => rw [fields_cons, ih, carry]; rfl
  have hiff : List.Forall₂ (Own some []) (reads S entry sensorFiles)
      (carry [] (reads S entry sensorFiles)) ↔ Covered some [] [] (reads S entry sensorFiles) :=
    own_fields_iff (hfields [] _)
  unfold SensorIsolated
  constructor
  · intro h hf
    obtain ⟨data, hd⟩ : ∃ data, Ownet.sensorOf S entry = some data := by
      unfold Ownet.sensorOf
      rw [if_neg hf]
      exact ⟨_, rfl⟩
    have hown := h data hd
    rw [(carry_of_sensorOf hd).1] at hown
    exact hiff.mp hown
  · intro h data hd
    obtain ⟨hdata, hf⟩ := carry_of_sensorOf hd
    rw [hdata]
    exact hiff.mpr (h hf)

end

section
variable {F : Type} (R : FloatReader F) {S}

theorem readPair_fields (device result : List Byte) (first second : String) :
    (Ownet.readPair R S device (bytes first) (bytes second) result).map (fun x => [x.1, x.2]) =
      fields R.stof result (reads S device [first, second]) := by
  simp only [reads, List.map_cons, List.map_nil, fields_cons, fields_nil]
  unfold Ownet.readPair Ownet.getValue
  cases hx : R.stof ((S.get (device ++ bytes first)).getD result) with
  | none => simp [hx]
  | some x =>
    cases hy : R.stof ((S.get (device ++ bytes second)).getD
        ((S.get (device ++ bytes first)).getD result)) with
    | none => simp [hx, hy]
    | some y => simp [hx, hy]

theorem readTemperatures_fields (device result : List Byte) :
    (Ownet.readTemperatures R S device result).map (fun x => [x.1, x.2.1, x.2.2]) =
      fields R.stof result (reads S device temperatureFiles) := by
  simp only [reads, temperatureFiles, List.map_cons, List.map_nil, fields_cons, fields_nil]
  unfold Ownet.readTemperatures Ownet.getValue
  cases hx : R.stof ((S.get (device ++ bytes "temperature")).getD result) with
  | none => simp [hx]
  | some x =>
    cases hy : R.stof ((S.get (device ++ bytes "templow")).getD
        ((S.get (device ++ bytes "temperature")).getD result)) with
    | none => simp [hx, hy]
    | some y =>
      cases hz : R.stof ((S.get (device ++ bytes "temphigh")).getD
          ((S.get (device ++ bytes "templow")).getD
            ((S.get (device ++ bytes "temperature")).getD result))) with
      | none => simp [hx, hy, hz]
      | some z => simp [hx, hy, hz]

end

section
variable {F : Type} [Zero F] (R : FloatReader F)

def NumbersIsolated (device : List Byte) (files : List String) (xs : List F) : Prop :=
  List.Forall₂ (Own R.stof 0) (reads S device files) xs

/-- The `temperature_t` of a registered thermometer; no record, no field. -/
def TemperatureIsolated (sensors : Registered) (device : List Byte) : Prop :=
  match Ownet.getTemperature R S sensors device with
  | .ok (some temp) =>
      NumbersIsolated S R device temperatureFiles [temp.temp, temp.lowtemp, temp.hightemp] ∧
        ∃ buffer, S.get Ownet.scaleFile = some buffer ∧ temp.scale = buffer.headD NUL
  | .error .wildPointer => False
  | _ => True

def BatteryIsolated (sensors : Registered) (device : List Byte) : Prop :=
  ∀ batt, Ownet.getBattery R S sensors device = .ok (some batt) →
    NumbersIsolated S R device ["current", "volts"] [batt.current, batt.volts]

variable {S} {R}

/-- The numbers of a thermometer, or zeros. -/
theorem temperatures_own_iff (device result : List Byte) :
    NumbersIsolated S R device temperatureFiles
      (((Ownet.readTemperatures R S device result).getD (0, 0, 0)).1 ::
        ((Ownet.readTemperatures R S device result).getD (0, 0, 0)).2.1 ::
        [((Ownet.readTemperatures R S device result).getD (0, 0, 0)).2.2]) ↔
      Clean R.stof 0 result (reads S device temperatureFiles) := by
  rw [← own_marked_iff, ← readTemperatures_fields R]
  cases Ownet.readTemperatures R S device result <;> rfl

theorem temperatureIsolated_iff (sensors : Registered) (device : List Byte) :
    TemperatureIsolated S R sensors device ↔
      ∀ sensor, sensors.lookup device = some sensor → sensor.type = .temperature →
        Clean R.stof 0 [] (reads S device temperatureFiles) ∧
          (S.get Ownet.scaleFile).isSome = true := by
  unfold TemperatureIsolated Ownet.getTemperature
  cases hs : sensors.lookup device with
  | none => simp
  | some sensor =>
    by_cases ht : sensor.type = .temperature
    · rw [← temperatures_own_iff]
      cases S.get Ownet.scaleFile with
      | none => simp [ht]
      | some buffer => simp [ht]
    · simp [ht]

theorem batteryIsolated_iff (sensors : Registered) (device : List Byte) :
    BatteryIsolated S R sensors device ↔
      ∀ sensor, sensors.lookup device = some sensor → sensor.type = .battery →
        Clean R.stof 0 [] (reads S device ["current", "volts"]) := by
  unfold BatteryIsolated Ownet.getBattery
  cases hs : sensors.lookup device with
  | none => simp
  | some sensor =>
    by_cases ht : sensor.type = .battery
    · rw [← own_kept_iff, ← readPair_fields R]
      cases Ownet.readPair R S device (bytes "current") (bytes "volts") [] with
      | none => simp [ht]
      | some x => simp [ht, NumbersIsolated]
    · simp [ht]

/-! ### The records that the constructor fills and drops -/

theorem refillTemperature_iff (device result id : List Byte) (temp : Temperature F) :
    NumbersIsolated S R device temperatureFiles
      [(Ownet.refillTemperature R S device result id temp).temp,
        (Ownet.refillTemperature R S device result id temp).lowtemp,
        (Ownet.refillTemperature R S device result id temp).hightemp] ↔
      Clean R.stof 0 result (reads S device temperatureFiles) :=
  temperatures_own_iff device result

theorem refillBattery_iff (device result id : List Byte) (power : Battery F) :
    NumbersIsolated S R device ["volts", "current"]
      [(Ownet.refillBattery R S device result id power).volts,
        (Ownet.refillBattery R S device result id power).current] ↔
      Clean R.stof 0 result (reads S device ["volts", "current"]) := by
  unfold Ownet.refillBattery
  rw [← own_marked_iff, ← readPair_fields R]
  cases Ownet.readPair R S device (bytes "volts") (bytes "current") result <;> rfl

end

end

/-! ## Records of `Onewire` -/

section
variable {F : Type} [Zero F] (R : Onewire.Thermometer F) (fs : Onewire.FileSystem)
  (m : Onewire.Mount)

/-- What a file of a device holds. -/
def contents (device : List Byte) (file : String) : Option (List Byte) :=
  fs.file ((if device = [] then m.rootdir else device ++ bytes "/") ++ bytes file)

/-- The `temperature_t` of a sensor in the kernel's directory is made of one file. -/
def BusIsolated (device : List Byte) (temp : Temperature F) : Prop :=
  (∃ t, contents fs m device "w1_slave" = some t ∧
    Onewire.busTemperature R m t = .ok temp.temp) ∧ temp.lowtemp = 0 ∧ temp.hightemp = 0

def OwfsIsolated (device : List Byte) (temp : Temperature F) : Prop :=
  Own R.stof 0 (contents fs m device "temperature") temp.temp ∧
    Own R.stof 0 (contents fs m device "temphigh") temp.hightemp ∧
    Own R.stof 0 (contents fs m device "templow") temp.lowtemp ∧
    (temp.scale = NUL ∨ ∃ t, contents fs m [] "/settings/units/temperature_scale" = some t ∧
      temp.scale = t.headD NUL)

def FileTemperatureIsolated (device : List Byte) : Prop :=
  ∀ sensor temp, m.sensors.lookup device = some sensor →
    Onewire.getTemperature R fs m device = .ok temp →
    if sensor.bus = some true then BusIsolated R fs m device temp
    else OwfsIsolated R fs m device temp

def FileBatteryIsolated (device : List Byte) : Prop :=
  ∀ batt, Onewire.getBattery R fs m device = .ok (some batt) →
    Own some [] (contents fs m device "id") batt.id ∧
      Own R.stof 0 (contents fs m device "current") batt.current ∧
      Own R.stof 0 (contents fs m device "volts") batt.volts

variable {R} {m}

/-- The string is overwritten by every read, or empty throughout. -/
def Fresh (m : Onewire.Mount) (result : List Byte) : Prop := m.mounted = true ∨ result = []

theorem value_of_mounted (h : m.mounted = true) (device result : List Byte) (file : String) :
    m.value fs device (bytes file) result = (contents fs m device file).getD [] := by
  unfold Onewire.Mount.value Onewire.getValue contents
  rw [h]
  rfl

theorem value_of_unmounted (h : m.mounted = false) (device result : List Byte) (file : String) :
    m.value fs device (bytes file) result = result := by
  unfold Onewire.Mount.value Onewire.getValue
  rw [h]
  rfl

theorem Fresh.value {result : List Byte} (h : Fresh m result) (device : List Byte)
    (file : String) : Fresh m (m.value fs device (bytes file) result) := by
  cases hm : m.mounted with
  | true => exact Or.inl hm
  | false =>
    rcases h with h | h
    · exact absurd (hm.symm.trans h) (by simp)
    · rw [value_of_unmounted fs hm]
      exact Or.inr h

/-- What is read is the file's, or nothing. -/
theorem Fresh.value_cases {result : List Byte} (h : Fresh m result) (device : List Byte)
    (file : String) : m.value fs device (bytes file) result = [] ∨
      contents fs m device file = some (m.value fs device (bytes file) result) := by
  cases hm : m.mounted with
  | true =>
    rw [value_of_mounted fs hm]
    cases contents fs m device file with
    | none => exact Or.inl rfl
    | some t => exact Or.inr rfl
  | false =>
    rcases h with h | h
    · exact absurd (hm.symm.trans h) (by simp)
    · rw [value_of_unmounted fs hm]
      exact Or.inl h

theorem Fresh.own_stof {result device : List Byte} {file : String} {x : F} (h : Fresh m result)
    (hx : R.stof (m.value fs device (bytes file) result) = some x) :
    Own R.stof 0 (contents fs m device file) x := by
  rcases h.value_cases fs device file with hv | hv
  · rw [hv, R.stof_nil] at hx
    exact absurd hx (by simp)
  · exact Or.inr ⟨_, hv, hx⟩

theorem Fresh.own_number {result device : List Byte} {file : String} {x : F} (h : Fresh m result)
    (hx : Onewire.numberOf R (m.value fs device (bytes file) result) = .ok x) :
    Own R.stof 0 (contents fs m device file) x := by
  unfold Onewire.numberOf at hx
  split at hx
  · exact Or.inl (Except.ok.inj hx).symm
  · split at hx
    · exact absurd hx (by simp)
    · rename_i y hy
      rw [← Except.ok.inj hx]
      exact h.own_stof fs hy

theorem fileTemperature_isolated (R : Onewire.Thermometer F) (fs : Onewire.FileSystem)
    (m : Onewire.Mount) (device : List Byte) : FileTemperatureIsolated R fs m device := by
  intro sensor temp hs h
  unfold Onewire.getTemperature at h
  rw [hs] at h
  dsimp only at h
  split at h
  · exact absurd h (by simp)
  have h0 : Fresh m [] := Or.inr rfl
  by_cases hb : sensor.bus = some true
  · rw [if_pos hb] at h ⊢
    obtain ⟨x, hx, hrest⟩ := bind_ok_iff.mp h
    rw [← Except.ok.inj hrest]
    refine ⟨?_, rfl, rfl⟩
    rcases h0.value_cases fs device "w1_slave" with hv | hv
    · rw [hv] at hx
      exact absurd hx (by simp [Onewire.busTemperature])
    · exact ⟨_, hv, hx⟩
  · rw [if_neg hb] at h ⊢
    obtain ⟨t, ht, h⟩ := bind_ok_iff.mp h
    obtain ⟨hi, hhi, h⟩ := bind_ok_iff.mp h
    obtain ⟨lo, hlo, h⟩ := bind_ok_iff.mp h
    rw [← Except.ok.inj h]
    have h1 := h0.value fs device "temperature"
    have h2 := h1.value fs device "temphigh"
    have h3 := h2.value fs device "templow"
    refine ⟨h0.own_number fs ht, h1.own_number fs hhi, h2.own_number fs hlo, ?_⟩
    rcases h3.value_cases fs [] "/settings/units/temperature_scale" with hv | hv
    · left
      show (m.value fs [] (bytes "/settings/units/temperature_scale") _).headD NUL = NUL
      rw [hv]
      rfl
    · exact Or.inr ⟨_, hv, rfl⟩

theorem fileBattery_isolated (R : Onewire.Thermometer F) (fs : Onewire.FileSystem)
    (m : Onewire.Mount) (device : List Byte) : FileBatteryIsolated R fs m device := by
  intro batt h
  unfold Onewire.getBattery at h
  split at h
  · exact absurd h (by simp)
  split at h
  · have h0 : Fresh m [] := Or.inr rfl
    have h1 := h0.value fs device "id"
    have h2 := h1.value fs device "current"
    dsimp only at h
    split at h
    · exact absurd h (by simp)
    rename_i current hc
    split at h
    · exact absurd h (by simp)
    rename_i volts hv
    rw [← Option.some.inj (Except.ok.inj h)]
    refine ⟨?_, h1.own_stof fs hc, h2.own_stof fs hv⟩
    rcases h0.value_cases fs device "id" with hid | hid
    · exact Or.inl hid
    · exact Or.inr ⟨_, hid, rfl⟩
  · exact absurd h (by simp)

end

/-! ## All records -/

section
variable {F : Type} [Zero F]

theorem getValue_independent_iff (S : Ownet.Server) (device file : List Byte) :
    (∀ r r', Ownet.getValue S device file r = Ownet.getValue S device file r') ↔
      (S.get (device ++ file)).isSome = true := by
  unfold Ownet.getValue
  cases S.get (device ++ file) with
  | none => simpa using ⟨[NUL], [], by simp⟩
  | some t => simp

theorem fileGetValue_independent_iff (fs : Onewire.FileSystem) (mounted : Bool)
    (rootdir device file : List Byte) :
    (∀ r r', Onewire.getValue fs mounted rootdir device file r =
      Onewire.getValue fs mounted rootdir device file r') ↔ mounted = true := by
  unfold Onewire.getValue
  cases mounted with
  | false => simpa using ⟨[NUL], [], by simp⟩
  | true => simp

/-- The records of `Onewire` are always isolated. Those of `Ownet` are exactly if no failed
read finds in the string what another field has left. -/
theorem records_isolated_iff (R : Onewire.Thermometer F) (S : Ownet.Server)
    (fs : Onewire.FileSystem) (m : Onewire.Mount) (sensors : Registered)
    (device file result id : List Byte) (temp : Temperature F) (power : Battery F) :
    ((∀ r r', Ownet.getValue S device file r = Ownet.getValue S device file r') ↔
      (S.get (device ++ file)).isSome = true) ∧
    ((∀ r r', Onewire.getValue fs m.mounted m.rootdir device file r =
      Onewire.getValue fs m.mounted m.rootdir device file r') ↔ m.mounted = true) ∧
    (SensorIsolated S device ↔ (Ownet.getValue S device (bytes "family") [] ≠ [] →
      Covered some [] [] (reads S device sensorFiles))) ∧
    (TemperatureIsolated S R.toFloatReader sensors device ↔
      ∀ sensor, sensors.lookup device = some sensor → sensor.type = .temperature →
        Clean R.stof 0 [] (reads S device temperatureFiles) ∧
          (S.get Ownet.scaleFile).isSome = true) ∧
    (BatteryIsolated S R.toFloatReader sensors device ↔
      ∀ sensor, sensors.lookup device = some sensor → sensor.type = .battery →
        Clean R.stof 0 [] (reads S device ["current", "volts"])) ∧
    (NumbersIsolated S R.toFloatReader device temperatureFiles
      [(Ownet.refillTemperature R.toFloatReader S device result id temp).temp,
        (Ownet.refillTemperature R.toFloatReader S device result id temp).lowtemp,
        (Ownet.refillTemperature R.toFloatReader S device result id temp).hightemp] ↔
      Clean R.stof 0 result (reads S device temperatureFiles)) ∧
    (NumbersIsolated S R.toFloatReader device ["volts", "current"]
      [(Ownet.refillBattery R.toFloatReader S device result id power).volts,
        (Ownet.refillBattery R.toFloatReader S device result id power).current] ↔
      Clean R.stof 0 result (reads S device ["volts", "current"])) ∧
    FileTemperatureIsolated R fs m device ∧ FileBatteryIsolated R fs m device :=
  ⟨getValue_independent_iff S device file,
    fileGetValue_independent_iff fs m.mounted m.rootdir device file, sensorIsolated_iff device,
    temperatureIsolated_iff sensors device, batteryIsolated_iff sensors device,
    refillTemperature_iff device result id temp, refillBattery_iff device result id power,
    fileTemperature_isolated R fs m device, fileBattery_isolated R fs m device⟩

end

/-! ## A thermometer whose `templow` cannot be read -/

def readsTwentyOne : FloatReader Int where
  stof t := if t = bytes "21" then some 21 else none
  stof_nil := by decide

def noLow : Ownet.Server where
  init := fun _ _ => true
  get path :=
    if path = bytes "28.A/temperature" then some (bytes "21")
    else if path = Ownet.scaleFile then some (bytes "F")
    else none

def thermometer : Onewire :=
  ⟨bytes "28", bytes "A", [], bytes "28.A", .temperature, none⟩

/-- The lowest temperature is the current one, though nothing was read for it. -/
theorem lowtemp_is_temp :
    noLow.get (bytes "28.A/" ++ bytes "templow") = none ∧
      Ownet.getTemperature readsTwentyOne noLow [(bytes "28.A/", thermometer)] (bytes "28.A/") =
        .ok (some ⟨bytes "A", 21, 21, 21, 70⟩) := by
  decide +kernel

end PowerGuru.Devices.SensorIsolation
