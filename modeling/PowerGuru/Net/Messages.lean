import PowerGuru.Lib.AssocMap
import PowerGuru.Net.Commands

/-!
# `Msgs`

The messages between a daemon and its clients: the encoders, the table of methods that
`init` fills, and `process`, which walks the tree of a message. Of a value the encoders
see what `<<` prints; `ends` puts a NUL behind every message.
-/
namespace PowerGuru.Net.Messages

open Lib.Bytes Lib.AssocMap Common Xml Commands

/-- `net_mode_e`. -/
inductive NetMode where
  | nonet
  | daemon
  | client
  deriving DecidableEq, Repr

/-- `xml_meters_e`. -/
inductive XmlMeters where
  | chargeAmps
  | acLoadAmps
  | batteryVolts
  | acVoltsOut
  | ac1VoltsIn
  | ac2VoltsIn
  | pvAmpsIn
  | pvVoltsIn
  | buyAmps
  | sellAmps
  | dailyKwh
  | hertz
  | tempcompVolts
  deriving DecidableEq, Repr

/-- `xml_status_e`. -/
inductive XmlStatus where
  | sysversion
  | revision
  | opmode
  | errormode
  | warningmode
  deriving DecidableEq, Repr

/-- `xml_command_e`. -/
inductive XmlCommand where
  | generator
  | grid
  | relay
  | auxilary
  | poll
  | inverter
  | charger
  deriving DecidableEq, Repr

/-- `xml_config_e`. -/
inductive XmlConfig where
  | genconfig
  | gridconfig
  | buy
  | sell
  | charge
  deriving DecidableEq, Repr

/-- `xml_msg_e`. -/
inductive XmlMsg where
  | meter
  | status
  | command
  | config
  | heartbeat
  | response
  deriving DecidableEq, Repr

/-! ## The encoders -/

/-- The macro. -/
def VERSION : List Byte := bytes "0.5dev"

/-- `_version` is the float that `atof` reads in `VERSION`. -/
def version : List Byte := bytes "0.5"

def ends (body : List Byte) : List Byte := body ++ [NUL]

/-- What every message but that of `configCreate` begins with. -/
def header : List Byte := bytes "<powerguru version=\"" ++ version ++ bytes "\">"

def metersRequestCreate (str : List Byte) : List Byte :=
  ends (header ++ bytes "<meters>" ++ cstr str ++ bytes "</meters>" ++ bytes "</powerguru>")

/-- The word of a meter. Both switches over `xml_meters_e` have the same. -/
def XmlMeters.word : XmlMeters → List Byte
  | .chargeAmps => bytes "charge-amps"
  | .acLoadAmps => bytes "load-amps"
  | .batteryVolts => bytes "battery-volts"
  | .acVoltsOut => bytes "ac-volts-out"
  | .ac1VoltsIn => bytes "ac1-volts-in"
  | .ac2VoltsIn => bytes "ac2-volts-in"
  | .pvAmpsIn => bytes "pv-amps-in"
  | .pvVoltsIn => bytes "pv-volts-in"
  | .buyAmps => bytes "buy-amps"
  | .sellAmps => bytes "sell-amps"
  | .dailyKwh => bytes "daily-kwh"
  | .hertz => bytes "hertz"
  | .tempcompVolts => bytes "tempcomp"

/-- `metersRequestCreate` of an `xml_meters_e`. -/
def metersRequestCreateOf (val : XmlMeters) : List Byte := metersRequestCreate val.word

/-- The overloads for an int, a float and a text. -/
def metersResponseCreate (type val : List Byte) : List Byte :=
  ends (header ++ bytes "<meters><" ++ cstr type ++ bytes ">" ++ val ++ bytes "</" ++ cstr type ++
    bytes ">" ++ bytes "</meters>" ++ bytes "</powerguru>")

/-- `requestCreate`, by the class element and the word in it. -/
def requestBody (element word : List Byte) : List Byte :=
  ends (bytes "<powerguru version=\"" ++ version ++ bytes "\"><" ++ element ++ bytes ">" ++ word ++
    bytes "</" ++ element ++ bytes "></powerguru>")

/-- `requestCreate` of an `xml_meters_e`. -/
def requestCreateMeters (tag : XmlMeters) : List Byte := requestBody (bytes "meters") tag.word

def XmlStatus.word : XmlStatus → List Byte
  | .sysversion => bytes "sysversion"
  | .revision => bytes "revision"
  | .errormode => bytes "errormode"
  | .warningmode => bytes "warningmode"
  | .opmode => bytes "opmode"

/-- `requestCreate` of an `xml_status_e`. -/
def requestCreateStatus (tag : XmlStatus) : List Byte := requestBody (bytes "status") tag.word

def XmlConfig.word : XmlConfig → List Byte
  | .genconfig => bytes "generator"
  | .gridconfig => bytes "grid"
  | .buy => bytes "buy"
  | .sell => bytes "sell"
  | .charge => bytes "charge"

/-- `requestCreate` of an `xml_config_e`. -/
def requestCreateConfig (tag : XmlConfig) : List Byte := requestBody (bytes "config") tag.word

def XmlCommand.word : XmlCommand → List Byte
  | .generator => bytes "generator"
  | .grid => bytes "grid"
  | .relay => bytes "relay"
  | .auxilary => bytes "auxilary"
  | .poll => bytes "poll"
  | .inverter => bytes "inverter"
  | .charger => bytes "charger"

/-- `requestCreate` of an `xml_command_e`, which writes a status element. -/
def requestCreateCommand (tag : XmlCommand) : List Byte := requestBody (bytes "status") tag.word

/-- The element of a response. -/
def XmlMsg.element : XmlMsg → List Byte
  | .heartbeat => bytes "heartbeat"
  | .status => bytes "status"
  | .meter => bytes "meters"
  | .config => bytes "config"
  | .command => bytes "command"
  | .response => bytes "response"

def responseCreate (type : XmlMsg) (tag val : List Byte) : List Byte :=
  let str := type.element
  ends (bytes "<powerguru version=\"" ++ version ++ bytes "\"><" ++ str ++ bytes "><" ++ cstr tag ++
    bytes ">" ++ val ++ bytes "</" ++ cstr tag ++ bytes "></" ++ str ++ bytes "></powerguru>")

/-- The only message without a header. -/
def configCreate (tag value : List Byte) : List Byte :=
  ends (bytes "<powerguru>" ++ bytes "<" ++ tag ++ bytes ">" ++ value ++ bytes "</" ++ tag ++
    bytes ">" ++ bytes "</powerguru>")

/-! ## An object and the statics of its program -/

structure Msgs where
  netMode : NetMode
  cache : List (List Byte × List Byte)
  thisip : List Byte
  thishost : List Byte
  remoteip : List Byte
  remotehost : List Byte
  /-- What `writeNet` was given, oldest first. -/
  sent : List (List Byte)

def heloCreate (m : Msgs) : List Byte :=
  ends (header ++ bytes "<client ip=\"" ++ m.remoteip ++ bytes "\">" ++ m.remotehost ++
    bytes "</client>" ++ bytes "<server ip=\"" ++ m.thisip ++ bytes "\">" ++ m.thishost ++
    bytes "</server>" ++ bytes "</powerguru>")

/-- A tag that is not there has the same value as one without data. The names are compared whole,
where the code compares them up to a NUL; `Cache` has that loop. -/
def cacheGet (m : Msgs) (name : List Byte) : List Byte := (m.cache.lookup name).getD []

def cacheAdd (m : Msgs) (name str : List Byte) : Msgs := { m with cache := assign m.cache name str }

/-- The whole text is written, and the count of its bytes is taken for an error. -/
def writeNet (m : Msgs) (str : List Byte) : ErrorCode × Msgs :=
  (if str = [] then .success else .notSupported, { m with sent := m.sent ++ [str] })

/-! ## The methods -/

abbrev Method := Msgs → XMLNode → ErrorCode × Msgs

def unimplementedProcess : Method := fun m xml =>
  writeNet m (ends (header ++ bytes "<status><warningmode><" ++ xml.name ++
    bytes ">unimplemented</" ++ xml.name ++ bytes "></warningmode>" ++ bytes "</status>" ++
    bytes "</powerguru>"))

/-- Whether the versions match goes to the log. -/
def powerguruProcess : Method := fun m _ => (.success, m)

def heloProcess : Method := fun m _ => (.notSupported, m)

def configProcess : Method := unimplementedProcess

/-- The answer of a daemon; other words have none. -/
def statusAnswer (value : List Byte) : List Byte :=
  if value = bytes "sysversion" then responseCreate .status value version
  else if value = bytes "revision" then responseCreate .status value (bytes "0.0")
  else if value = bytes "opmode" then responseCreate .status value (bytes "none")
  else if value = bytes "warningmode" then responseCreate .status value (bytes "none")
  else if value = bytes "errormode" then responseCreate .status value (bytes "none")
  else []

def statusProcess : Method := fun m node =>
  match m.netMode with
  | .daemon => writeNet m (statusAnswer node.value)
  | .client =>
      if node.name = bytes "status" then (.success, m)
      else (.success, cacheAdd m node.name node.value)
  | .nonet => (.notSupported, m)

def metersProcess : Method := fun m node =>
  match m.netMode with
  | .daemon => writeNet m (metersResponseCreate node.value (cacheGet m node.value))
  | _ => (.notSupported, m)

/-- `valueGet() <= 0` asks whether there is a value. -/
def meterProcess : Method := fun m node =>
  (if node.value = [] then .notSupported else .success, m)

def chargeAmpsProcess : Method := meterProcess
def pvAmpsProcess : Method := meterProcess
def pvVoltsProcess : Method := meterProcess
def dailyKwhProcess : Method := meterProcess
def hertzProcess : Method := meterProcess
def buyAmpsProcess : Method := meterProcess
def sellAmpsProcess : Method := meterProcess
def acVoltsOutProcess : Method := meterProcess
def ac1InProcess : Method := meterProcess
def ac2InProcess : Method := meterProcess

/-- Goes on without a value. -/
def loadAmpsProcess : Method := fun m _ => (.success, m)

/-- So does this one, and it does nothing for a daemon. -/
def batteryVoltsProcess : Method := fun m _ =>
  (if m.netMode = .client then .success else .notSupported, m)

/-- The first attribute, if there is one, is this text. -/
def attribIs (node : XMLNode) (text : List Byte) : Bool := node.attributes.head?.all (·.2 == text)

def serverProcess : Method := fun m node =>
  if attribIs node m.thisip = false then (.notSupported, m)
  else if node.value ≠ m.thishost then (.notSupported, m)
  else (.success, m)

/-- Nothing is compared with a remote IP or host that is not set. -/
def clientProcess : Method := fun m node =>
  if m.remoteip ≠ [] ∧ attribIs node m.remoteip = false then (.notSupported, m)
  else if m.remotehost ≠ [] ∧ node.value ≠ m.remotehost then (.notSupported, m)
  else (.success, m)

def commandAnswer (value : List Byte) : List Byte :=
  if value = bytes "auxilary" then responseCreate .command value (bytes "0.0")
  else if value = bytes "relay" then responseCreate .command value (bytes "none")
  else if value = bytes "poll" then responseCreate .command value (bytes "inverter")
  else if value = [] then responseCreate .command value (bytes "charger")
  else responseCreate .response value (bytes "foobar")

def commandProcess : Method := fun m node =>
  if node.value = [] then (.notSupported, m)
  else
    match m.netMode with
    | .daemon => writeNet m (commandAnswer node.value ++ bytes "\r\n")
    | .client =>
        if node.name = bytes "command" then (.success, m)
        else (.success, cacheAdd m node.name node.value)
    | .nonet => (.notSupported, m)

def topMethods : List (List Byte × Method) :=
  [(bytes "powerguru", powerguruProcess), (bytes "helo", heloProcess),
    (bytes "client", clientProcess), (bytes "server", serverProcess)]

/-- The meters, under the tags that `init` registers. -/
def meterMethods : List (List Byte × Method) :=
  [(bytes "charge-mps", chargeAmpsProcess), (bytes "load-amps", loadAmpsProcess),
    (bytes "pv-amps", pvAmpsProcess), (bytes "pv-volts", pvVoltsProcess),
    (bytes "daily-kwh", dailyKwhProcess), (bytes "hertz", hertzProcess),
    (bytes "battery-volts", batteryVoltsProcess), (bytes "buy-amps", buyAmpsProcess),
    (bytes "sell-amps", sellAmpsProcess), (bytes "ac-volts-out", acVoltsOutProcess),
    (bytes "ac1-volts-in", ac1InProcess), (bytes "ac2-volts-in", ac2InProcess)]

def statusMethods : List (List Byte × Method) :=
  [(bytes "status", statusProcess), (bytes "version", statusProcess),
    (bytes "revision", statusProcess), (bytes "opmode", statusProcess),
    (bytes "errormode", statusProcess), (bytes "warningmode", statusProcess)]

def configMethods : List (List Byte × Method) :=
  [(bytes "config", configProcess), (bytes "generator", configProcess),
    (bytes "grid", configProcess), (bytes "buy", configProcess), (bytes "sell", configProcess),
    (bytes "start", configProcess), (bytes "end", configProcess)]

def commandMethods : List (List Byte × Method) :=
  [(bytes "command", commandProcess), (bytes "auxilary", commandProcess),
    (bytes "relay", commandProcess), (bytes "poll", commandProcess),
    (bytes "inverter", commandProcess), (bytes "charger", commandProcess)]

/-- `_methods` after `init`. -/
def methods : List (List Byte × Method) :=
  topMethods ++ ((bytes "meters", metersProcess) :: meterMethods) ++ statusMethods ++
    configMethods ++ commandMethods

/-- The tags that `init` registers. -/
def tags : List (List Byte) := methods.map Prod.fst

/-- What ends a program that gets a message. -/
inductive Crash where
  /-- No tree is made of it. -/
  | xml (f : Fault)
  /-- `methodGet` ended without a return, and `process` used what it left. -/
  | undefinedPointer

/-- The loop over `_methods`, which ends without a return where no key is the name. The name of a
node has no NUL, so that `strcmp` is equality; `Dispatch` has the loop for any table and text. -/
def methodGet (name : List Byte) : Except Crash Method :=
  match methods.lookup name with
  | some fptr => .ok fptr
  | none => .error .undefinedPointer

/-- What `init` enters beforehand in a daemon. -/
def preload : List (List Byte × List Byte) :=
  [(bytes "version", VERSION), (bytes "revision", VERSION),
    (bytes "battery-volts", bytes "88888888"), (bytes "charge-amps", bytes "777777777"),
    (bytes "load-amps", bytes "66666666"), (bytes "pv-amps", bytes "55555555"),
    (bytes "sell-amps", bytes "444444444444")]

def init (m : Msgs) : Msgs :=
  if m.netMode = .daemon then { m with cache := assignAll m.cache preload } else m

/-! ## A message that arrives -/

/-- The method of one node. The result only goes to the log. -/
def processNode (m : Msgs) (xml : XMLNode) : Except Crash Msgs := do
  let fptr ← methodGet xml.name
  return (fptr m xml).2

mutual

def process : Msgs → XMLNode → Except Crash Msgs
  | m, ⟨name, value, children, attributes⟩ => do
      let m' ← processNode m ⟨name, value, children, attributes⟩
      processAll m' children

def processAll : Msgs → List XMLNode → Except Crash Msgs
  | m, [] => .ok m
  | m, xml :: xmls => do
      let m' ← process m xml
      processAll m' xmls

end

/-- What `anydata` delivers of a message. -/
def delivered (text : List Byte) : List Byte := cutAtLast LF (cstr text)

/-- A text that is not XML is passed over. -/
def receive (libxml : Libxml) (m : Msgs) (text : List Byte) : Except Crash Msgs := do
  let (_, xml) ← (parseMem libxml none (delivered text)).mapError .xml
  match xml with
  | some root => process m root
  | none => return m

/-! ## The nodes of a message -/

mutual

/-- The nodes of a tree as they stand in the text. -/
def nodes : XMLNode → List XMLNode
  | ⟨name, value, children, attributes⟩ =>
      ⟨name, value, children, attributes⟩ :: nodesAll children

def nodesAll : List XMLNode → List XMLNode
  | [] => []
  | xml :: xmls => nodes xml ++ nodesAll xmls

end

mutual

/-- `process` runs the method of each node in that order. -/
theorem process_nodes :
    ∀ (m : Msgs) (xml : XMLNode), process m xml = (nodes xml).foldlM processNode m
  | m, ⟨name, value, children, attributes⟩ => by
      rw [process, nodes, List.foldlM_cons]
      exact congrArg _ (funext fun m' => processAll_nodes m' children)

theorem processAll_nodes : ∀ (m : Msgs) (xmls : List XMLNode),
    processAll m xmls = (nodesAll xmls).foldlM processNode m
  | m, [] => rfl
  | m, xml :: xmls => by
      rw [processAll, nodesAll, List.foldlM_append, ← process_nodes]
      exact congrArg _ (funext fun m' => processAll_nodes m' xmls)

end

theorem methodGet_eq_ok_iff {name : List Byte} {fptr : Method} :
    methodGet name = .ok fptr ↔ methods.lookup name = some fptr := by
  unfold methodGet
  cases methods.lookup name <;> simp

theorem methodGet_of_not_mem {name : List Byte} (h : name ∉ tags) :
    methodGet name = .error .undefinedPointer := by
  have hnone : methods.lookup name = none := by
    rw [List.lookup_eq_none_iff]
    intro e he
    rw [bne_iff_ne]
    rintro rfl
    exact h (List.mem_map_of_mem he)
  rw [methodGet, hnone]

theorem mem_tags_iff {name : List Byte} :
    name ∈ tags ↔ ∃ fptr, methodGet name = .ok fptr := by
  constructor
  · intro h
    by_contra hno
    cases hm : methodGet name with
    | ok fptr => exact hno ⟨fptr, hm⟩
    | error e =>
      unfold methodGet at hm
      split at hm
      · exact absurd hm (by simp)
      · next hnone =>
        obtain ⟨e, he, rfl⟩ := List.mem_map.mp h
        exact absurd (List.lookup_eq_none_iff.mp hnone e he) (by simp)
  · rintro ⟨fptr, h⟩
    by_contra hno
    rw [methodGet_of_not_mem hno] at h
    exact absurd h (by simp)

/-- Nodes are processed to the end exactly if each tag is registered. -/
theorem foldlM_ok_iff (m : Msgs) (xmls : List XMLNode) :
    (∃ m', xmls.foldlM processNode m = .ok m') ↔ ∀ xml ∈ xmls, xml.name ∈ tags := by
  induction xmls generalizing m with
  | nil => exact iff_of_true ⟨m, rfl⟩ fun xml hxml => absurd hxml List.not_mem_nil
  | cons xml xmls ih =>
    rw [List.foldlM_cons, List.forall_mem_cons]
    by_cases h : xml.name ∈ tags
    · obtain ⟨fptr, hf⟩ := mem_tags_iff.mp h
      have hnode : processNode m xml = .ok (fptr m xml).2 := by
        rw [processNode, hf]
        rfl
      rw [and_iff_right h, ← ih (fptr m xml).2, hnode]
      rfl
    · refine iff_of_false ?_ fun hall => h hall.1
      rintro ⟨m', hm⟩
      rw [processNode, methodGet_of_not_mem h] at hm
      exact absurd hm (by simp [bind, Except.bind])

end PowerGuru.Net.Messages
