import Ester.Pci.Recursive

/-
  The configuration ports of pci/pci.c.

  A value written to the address port is latched, and an
  access of the data port goes to the register that the
  latched address names.  What the functions hold may change
  with every word that is written to them.  After the scan,
  `pci_ahci_get_abar` looks through the listed functions for
  an AHCI controller, enables the first one and returns its
  base address; without one it returns nothing.

  Key definitions include:
    * `HostBridge`
    * `Ports.pciReadConfigLong`, `Ports.pciWrite`
    * `Ports.pciAhciInit`, `Ports.pciAhciGetAbar`

  Key theorems include:
    * `pciWrite_eq`
    * `pciAhciGetAbar_scan`
-/

namespace Ester

namespace Pci

------------------------------------------------------------
-- The Ports
------------------------------------------------------------

/- A word that was written to a register of a function. -/
@[ext] structure ConfigWrite where
  bus : UInt8
  device : UInt8
  function : UInt8
  offset : UInt8
  data : UInt32
deriving DecidableEq

/- The latched address and the words written so far. -/
structure HostBridge where
  address : UInt32
  writes : List ConfigWrite

abbrev pciConfigAddressPort : UInt16 := 0xCF8

abbrev pciConfigDataPort : UInt16 := 0xCFC

/-
  A word for the register that is named by an address, which
  the host bridge takes apart as it does for a read.
-/
def writeOf
    (addr data : UInt32) : ConfigWrite where
  bus := (addr >>> 16 &&& 0xFF).toUInt8
  device := (addr >>> 11 &&& 0x1F).toUInt8
  function := (addr >>> 8 &&& 0x7).toUInt8
  offset := (addr &&& 0xFC).toUInt8
  data := data

/- Write a word to a port. -/
def outl
    (port : UInt16)
    (v : UInt32)
    (h : HostBridge) : HostBridge :=
  if port = pciConfigAddressPort then { h with address := v }
  else if port = pciConfigDataPort then
    if h.address &&& 0x80000000 = 0 then h
    else { h with writes := h.writes ++ [writeOf h.address v] }
  else h

/- What the functions hold after words were written. -/
abbrev Functions :=
  List ConfigWrite → ConfigSpace

/- Read a word from a port. -/
def inl
    (config : Functions)
    (port : UInt16)
    (h : HostBridge) : UInt32 :=
  if port = pciConfigAddressPort then h.address
  else if port = pciConfigDataPort then
    (config h.writes).port h.address
  else 0xFFFFFFFF

------------------------------------------------------------
-- The Driver
------------------------------------------------------------

namespace Ports

variable (config : Functions)

def pciReadConfigLong
    (bus device function offset : UInt8) :
    StateM HostBridge UInt32 := do
  modify (outl pciConfigAddressPort
    (configAddress bus device function offset))
  return inl config pciConfigDataPort (← get)

def pciGetClassCode
    (bus device function : UInt8) :
    StateM HostBridge UInt8 := do
  let v ← pciReadConfigLong config bus device function 0x08
  return ((v &&& 0xFF000000) >>> 24).toUInt8

def pciGetSubClassCode
    (bus device function : UInt8) :
    StateM HostBridge UInt8 := do
  let v ← pciReadConfigLong config bus device function 0x08
  return ((v &&& 0x00FF0000) >>> 16).toUInt8

def pciGetProgIfCode
    (bus device function : UInt8) :
    StateM HostBridge UInt8 := do
  let v ← pciReadConfigLong config bus device function 0x08
  return ((v &&& 0x0000FF00) >>> 8).toUInt8

/- The function puts the address together for itself. -/
def pciWrite
    (bus device function offset : UInt8)
    (data : UInt32) : StateM HostBridge Unit := do
  let address : UInt32 := ((1 : UInt32) <<< 31) |||
    (bus.toUInt32 <<< 16) ||| (device.toUInt32 <<< 11) |||
    (function.toUInt32 <<< 8) ||| (offset &&& 0xFC).toUInt32
  modify (outl pciConfigAddressPort address)
  modify (outl pciConfigDataPort data)

/-
  Set bits of the command register.  The status register
  above it is written with zeros.
-/
def pciAhciInit
    (bus slot func : UInt8) : StateM HostBridge Unit := do
  let v ← pciReadConfigLong config bus slot func 0x04
  let command : UInt16 := v.toUInt16
  let command := command ||| ((1 : UInt16) <<< 10)
  let command := command ||| ((1 : UInt16) <<< 8)
  let command := command ||| ((1 : UInt16) <<< 2)
  let command := command ||| ((1 : UInt16) <<< 1)
  pciWrite bus slot func 0x04 command.toUInt32

/-
  The loop of `pci_ahci_get_abar`.  Its counter has 8 bits,
  and the vector is never longer than 128 entries.  Nothing
  is returned at the end of the list.
-/
def abarLoop : List PciDev → StateM HostBridge (Option UInt32)
  | [] => pure none
  | f :: fs => do
      let classId ←
        pciGetClassCode config f.bus f.device f.function
      let subclassId ←
        pciGetSubClassCode config f.bus f.device f.function
      let _progIf ←
        pciGetProgIfCode config f.bus f.device f.function
      if classId = 0x1 ∧ subclassId = 0x6 then
        let bar ← pciReadConfigLong config f.bus f.device
          f.function 0x24
        pciAhciInit config f.bus f.device f.function
        return some bar
      else abarLoop fs

def pciAhciGetAbar
    (v : PciVector) : StateM HostBridge (Option UInt32) :=
  abarLoop config v.devices

end Ports

------------------------------------------------------------
-- Accesses
------------------------------------------------------------

section Accesses

variable (bus : UInt8)
variable {device function : UInt8}
variable (hDevice : device.toNat < 32)
variable (hFunction : function.toNat < 8)

include hDevice hFunction

/- The bridge takes the fields of an address apart again. -/
theorem writeOf_configAddress
    (offset : UInt8)
    (data : UInt32) :
    configAddress bus device function offset &&& 0x80000000 ≠
        0 ∧
      writeOf (configAddress bus device function offset) data =
        ⟨bus, device, function, offset &&& 0xFC, data⟩ := by
  -- The words of a space can tell each of the fields.
  have hRead : ∀ field : ConfigSpace,
      field.port (configAddress bus device function offset) =
        field bus device function (offset &&& 0xFC) :=
    fun field =>
      pciReadConfigLong_eq field offset hDevice hFunction
  have hTop : configAddress bus device function offset &&&
      0x80000000 ≠ 0 := by
    intro hZero
    have hNone := hRead fun _ _ _ _ => 0
    rw [ConfigSpace.port, if_pos hZero] at hNone
    exact absurd hNone (by decide)
  have hField : ∀ field : ConfigSpace,
      field (writeOf (configAddress bus device function offset)
          data).bus
        (writeOf (configAddress bus device function offset)
          data).device
        (writeOf (configAddress bus device function offset)
          data).function
        (writeOf (configAddress bus device function offset)
          data).offset =
        field bus device function (offset &&& 0xFC) := by
    intro field
    rw [← hRead field, ConfigSpace.port, if_neg hTop]
    rfl
  have hByte : ∀ a b : UInt8, a.toUInt32 = b.toUInt32 → a = b :=
    fun a b hEq => by
      have hNat := congrArg UInt32.toNat hEq
      rw [UInt8.toNat_toUInt32, UInt8.toNat_toUInt32] at hNat
      exact UInt8.toNat_inj.mp hNat
  have hBus := hByte _ _ (hField fun b _ _ _ => b.toUInt32)
  have hDev := hByte _ _ (hField fun _ d _ _ => d.toUInt32)
  have hFun := hByte _ _ (hField fun _ _ f _ => f.toUInt32)
  have hOff := hByte _ _ (hField fun _ _ _ o => o.toUInt32)
  exact ⟨hTop, ConfigWrite.ext hBus hDev hFun hOff rfl⟩

/-
  A write reaches the register it is meant for and nothing
  else, whatever address was latched before.
-/
theorem pciWrite_eq
    (offset : UInt8)
    (data : UInt32)
    (h : HostBridge) :
    ((Ports.pciWrite bus device function offset data).run
        h).2.writes =
      h.writes ++
        [⟨bus, device, function, offset &&& 0xFC, data⟩] := by
  have hAddress : ((1 : UInt32) <<< 31) |||
      (bus.toUInt32 <<< 16) ||| (device.toUInt32 <<< 11) |||
      (function.toUInt32 <<< 8) |||
      (offset &&& 0xFC).toUInt32 =
        configAddress bus device function offset := by
    rw [configAddress, show (1 : UInt32) <<< 31 = 0x80000000
      from rfl, UInt32.or_assoc, UInt32.or_assoc,
      UInt32.or_assoc, UInt32.or_comm]
    simp only [UInt32.or_assoc]
  rcases writeOf_configAddress bus hDevice hFunction offset
    data with ⟨hTop, hWrite⟩
  change (outl pciConfigDataPort data
    (outl pciConfigAddressPort _ h)).writes = _
  rw [hAddress]
  change (if configAddress bus device function offset &&&
    0x80000000 = 0 then _ else _ : HostBridge).writes = _
  rw [if_neg hTop, ← hWrite]
  rfl

end Accesses

------------------------------------------------------------
-- The AHCI Controller
------------------------------------------------------------

/- The class and the subclass of an AHCI controller. -/
def isAhci
    (config : ConfigSpace)
    (f : PciDev) : Bool :=
  let classes := config f.bus f.device f.function 0x08
  ((classes &&& 0xFF000000) >>> 24).toUInt8 == 0x01 &&
    ((classes &&& 0x00FF0000) >>> 16).toUInt8 == 0x06

/- The base address register that holds the ABAR. -/
def abar
    (config : ConfigSpace)
    (f : PciDev) : UInt32 :=
  config f.bus f.device f.function 0x24

/-
  The command register with memory space, bus mastering and
  the bits 8 and 10 set, and no status.
-/
def enabling
    (config : ConfigSpace)
    (f : PciDev) : ConfigWrite where
  bus := f.bus
  device := f.device
  function := f.function
  offset := 0x04
  data := (config f.bus f.device f.function 0x04 &&& 0xFFFF) |||
    0x0506

section Discovery

variable {config : Functions} {h : HostBridge}

section Function

variable {f : PciDev}
variable (hDevice : f.device.toNat < 32)
variable (hFunction : f.function.toNat < 8)

include hDevice hFunction

/- The command register is read, and written once. -/
theorem pciAhciInit_writes :
    ((Ports.pciAhciInit config f.bus f.device f.function).run
        h).2.writes =
      h.writes ++ [enabling (config h.writes) f] := by
  have hCommand : ∀ v : UInt32,
      (v.toUInt16 ||| ((1 : UInt16) <<< 10) |||
        ((1 : UInt16) <<< 8) ||| ((1 : UInt16) <<< 2) |||
          ((1 : UInt16) <<< 1)).toUInt32 =
        (v &&& 0xFFFF) ||| 0x0506 := by
    intro v
    have hBits : (1 : UInt16) <<< 10 ||| ((1 : UInt16) <<< 8 |||
        ((1 : UInt16) <<< 2 ||| (1 : UInt16) <<< 1)) =
          0x0506 := by decide
    rw [UInt16.or_assoc, UInt16.or_assoc, UInt16.or_assoc,
      hBits, ← UInt32.toNat_inj, UInt16.toNat_toUInt32,
      UInt16.toNat_or, UInt32.toNat_or, UInt32.toNat_and,
      UInt32.toNat_toUInt16,
      show (0xFFFF : UInt32).toNat = 2 ^ 16 - 1 from rfl,
      Nat.and_two_pow_sub_one_eq_mod]
    rfl
  have hRead := @pciReadConfigLong_eq (config h.writes) f.bus
    f.device f.function 0x04 hDevice hFunction
  have hWrite := pciWrite_eq f.bus hDevice hFunction 0x04
    ((Pci.pciReadConfigLong (config h.writes) f.bus f.device
      f.function 0x04 &&& 0xFFFF) ||| 0x0506)
    { h with
      address :=
        configAddress f.bus f.device f.function 0x04 }
  rw [← hCommand] at hWrite
  refine Eq.trans hWrite ?_
  rw [hCommand, hRead]
  rfl

end Function

/-
  The loop finds the first controller of the list.  Nothing
  is written before it is found.
-/
theorem abarLoop_run
    {fs : List PciDev}
    (hFields : ∀ f ∈ fs,
      f.device.toNat < 32 ∧ f.function.toNat < 8) :
    ((Ports.abarLoop config fs).run h).1 =
        (fs.find? (isAhci (config h.writes))).map
          (abar (config h.writes)) ∧
      ((Ports.abarLoop config fs).run h).2.writes =
        h.writes ++ (fs.find? (isAhci (config h.writes))).toList.map
          (enabling (config h.writes)) := by
  induction fs generalizing h with
  | nil => exact ⟨rfl, (List.append_nil _).symm⟩
  | cons f fs ih =>
      rw [List.forall_mem_cons] at hFields
      rcases hFields with ⟨⟨hDevice, hFunction⟩, hRest⟩
      have hClass := @pciReadConfigLong_eq (config h.writes)
        f.bus f.device f.function 0x08 hDevice hFunction
      have hBar := @pciReadConfigLong_eq (config h.writes)
        f.bus f.device f.function 0x24 hDevice hFunction
      have hTest : isAhci (config h.writes) f = true ↔
          Pci.pciGetClassCode (config h.writes) f.bus f.device
              f.function = 0x1 ∧
            Pci.pciGetSubClassCode (config h.writes) f.bus
              f.device f.function = 0x6 := by
        unfold isAhci Pci.pciGetClassCode Pci.pciGetSubClassCode
        rw [hClass, Bool.and_eq_true, beq_iff_eq, beq_iff_eq]
        rfl
      -- The three reads of the loop leave the address latched.
      have hBody : (Ports.abarLoop config (f :: fs)).run h =
          (if Pci.pciGetClassCode (config h.writes) f.bus
                f.device f.function = 0x1 ∧
              Pci.pciGetSubClassCode (config h.writes) f.bus
                f.device f.function = 0x6 then do
            let bar ← Ports.pciReadConfigLong config f.bus
              f.device f.function 0x24
            Ports.pciAhciInit config f.bus f.device f.function
            return some bar
          else Ports.abarLoop config fs).run
            { h with
              address := configAddress f.bus f.device
                f.function 0x08 } := rfl
      rw [hBody]
      by_cases hFound : isAhci (config h.writes) f = true
      · rw [if_pos (hTest.mp hFound),
          List.find?_cons_of_pos hFound]
        refine ⟨congrArg some hBar, ?_⟩
        exact @pciAhciInit_writes config
          { h with
            address := configAddress f.bus f.device f.function
              0x24 } f hDevice hFunction
      · rw [if_neg fun hIs => hFound (hTest.mpr hIs),
          List.find?_cons_of_neg hFound]
        exact @ih
          { h with
            address := configAddress f.bus f.device f.function
              0x08 } hRest

/- Everything that the scan lists is a present function. -/
theorem present_of_scan
    {c : ConfigSpace}
    {f : PciDev}
    (hConfigured : Configured c)
    (hListed : f ∈ (rootOrders (treeFunctions c) UInt8.ofNat
      (scannedHosts c)).take pciMaxDevices) :
    Present c f := by
  have hIn := List.mem_of_mem_take hListed
  rw [rootOrders, List.mem_flatMap] at hIn
  rcases hIn with ⟨i, -, hTree⟩
  rw [(treeFunctions_depthFirst hConfigured).mem_iff
    hConfigured.ascends UInt8.toNat_lt] at hTree
  rcases hTree with ⟨b, -, hMember⟩
  exact ((mem_presentFunctions c b f).mp hMember).2

/-
  After the scan of a configured space, whatever address is
  latched: the first AHCI controller among the first 128
  functions of the trees below the root complex gives the
  result and is the only function that is written to, once;
  without one there is no result and nothing is written.
-/
theorem pciAhciGetAbar_scan
    (config : Functions)
    (hConfigured : Configured (config []))
    (fuel : Nat)
    (hFuel : 256 ≤ fuel)
    (address : UInt32) :
    ∃ v, pciRecursiveScan (config []) fuel = some v ∧
      v.devices = (rootOrders (treeFunctions (config []))
        UInt8.ofNat (scannedHosts (config []))).take
          pciMaxDevices ∧
      ((∃ before f after,
          v.devices = before ++ f :: after ∧
          Present (config []) f ∧
          isAhci (config []) f = true ∧
          (∀ g ∈ before, isAhci (config []) g = false) ∧
          ((Ports.pciAhciGetAbar config v).run
            ⟨address, []⟩).1 = some (abar (config []) f) ∧
          ((Ports.pciAhciGetAbar config v).run
            ⟨address, []⟩).2.writes =
              [enabling (config []) f]) ∨
        (∀ g ∈ v.devices, isAhci (config []) g = false) ∧
          ((Ports.pciAhciGetAbar config v).run
            ⟨address, []⟩).1 = none ∧
          ((Ports.pciAhciGetAbar config v).run
            ⟨address, []⟩).2.writes = []) := by
  rcases pciRecursiveScan_devices hConfigured hFuel with
    ⟨v, hScan, hDevices⟩
  refine ⟨v, hScan, hDevices, ?_⟩
  have hPresent : ∀ f ∈ v.devices, Present (config []) f := by
    intro f hf
    rw [hDevices] at hf
    exact present_of_scan hConfigured hf
  rcases @abarLoop_run config ⟨address, []⟩ v.devices
    (fun f hf => ⟨(hPresent f hf).1, (hPresent f hf).2.1⟩) with
    ⟨hResult, hWrites⟩
  change _ = (v.devices.find? (isAhci (config []))).map _
    at hResult
  change _ = [] ++
    (v.devices.find? (isAhci (config []))).toList.map _
    at hWrites
  cases hFind : v.devices.find? (isAhci (config [])) with
  | none =>
      rw [hFind] at hResult hWrites
      have hNone := List.find?_eq_none.mp hFind
      exact .inr ⟨fun g hg => Bool.not_eq_true _ ▸ hNone g hg,
        hResult, hWrites⟩
  | some f =>
      rw [hFind] at hResult hWrites
      rcases List.find?_eq_some_iff_append.mp hFind with
        ⟨hIs, before, after, hList, hBefore⟩
      refine .inl ⟨before, f, after, hList, hPresent f ?_, hIs,
        fun g hg => ?_, hResult, hWrites⟩
      · rw [hList]
        exact List.mem_append_right _ List.mem_cons_self
      · exact Bool.not_eq_true' _ ▸ hBefore g hg

/- One controller on bus 0, whose status is not zero. -/
def ahciConfig : ConfigSpace := fun bus device _ offset =>
  if bus = 0 ∧ device = 2 then
    if offset = 0 then 0x29228086
    else if offset = 0x04 then 0x02B00003
    else if offset = 0x08 then 0x01060102
    else if offset = 0x24 then 0xFEBF1000
    else 0
  else if bus = 0 ∧ device = 0 then 0
  else 0xFFFFFFFF

theorem ahciConfig_behind
    {f : PciDev}
    (hPresent : Present ahciConfig f) :
    behind ahciConfig f = none := by
  rcases f with ⟨bus, device, function⟩
  rcases hPresent with ⟨-, -, hVendor, -⟩
  by_cases hController : bus = 0 ∧ device = 2
  · rcases hController with ⟨rfl, rfl⟩
    have hClasses :
        ahciConfig 0 2 function 0x08 = 0x01060102 := rfl
    simp only [behind, hClasses]
    exact if_neg (by decide)
  · by_cases hRoot : bus = 0 ∧ device = 0
    · rcases hRoot with ⟨rfl, rfl⟩
      have hClasses : ahciConfig 0 0 function 0x08 = 0 := rfl
      simp only [behind, hClasses]
      exact if_neg (by decide)
    · exact absurd (by
        simp only [ConfigSpace.vendor, ahciConfig,
          if_neg hController, if_neg hRoot]
        decide) hVendor

theorem ahciConfig_configured :
    Configured ahciConfig where
  deeper f b hPresent hDown := by
    rw [ahciConfig_behind hPresent] at hDown
    cases hDown
  single f g b hF _ hDown _ := by
    rw [ahciConfig_behind hF] at hDown
    cases hDown

/- The controller behind the host bridge is enabled. -/
theorem pciAhciGetAbar_scan_sample :
    ∃ v, pciRecursiveScan ahciConfig 256 = some v ∧
      ((Ports.pciAhciGetAbar (fun _ => ahciConfig) v).run
          ⟨0, []⟩).1 = some 0xFEBF1000 ∧
      ((Ports.pciAhciGetAbar (fun _ => ahciConfig) v).run
          ⟨0, []⟩).2.writes = [⟨0, 2, 0, 0x04, 0x0507⟩] := by
  rcases pciAhciGetAbar_scan (fun _ => ahciConfig)
      ahciConfig_configured 256 (Nat.le_refl _) 0 with
    ⟨v, hScan, -, hCases⟩
  have hList : (pciRecursiveScan ahciConfig 256).map
      PciVector.devices = some [⟨0, 0, 0⟩, ⟨0, 2, 0⟩] := by
    decide +kernel
  rw [hScan, Option.map_some, Option.some.injEq] at hList
  refine ⟨v, hScan, ?_⟩
  rw [hList] at hCases
  rcases hCases with
    ⟨before, f, after, hSplit, -, hIs, -, hResult, hWrites⟩ |
      ⟨hNone, -⟩
  · have hMember : f ∈ [(⟨0, 0, 0⟩ : PciDev), ⟨0, 2, 0⟩] := by
      rw [hSplit]
      exact List.mem_append_right _ List.mem_cons_self
    simp only [List.mem_cons, List.not_mem_nil, or_false]
      at hMember
    rcases hMember with rfl | rfl
    · exact absurd hIs (by decide)
    · exact ⟨hResult, hWrites⟩
  · exact absurd (hNone ⟨0, 2, 0⟩ (by simp)) (by decide)

end Discovery

end Pci

end Ester
