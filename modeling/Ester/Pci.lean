import Ester.Library.Mask

/-
  The bus scan of pci/pci.c.

  A configuration space gives one 32-bit word for each bus,
  device, function and register offset.  The code reaches it
  through the address port, whose value the host bridge
  takes apart again.  The scan threads the vector of found
  functions through three mutually recursive functions; the
  recursion runs over the buses and is cut by fuel.

  Key definitions include:
    * `ConfigSpace`
    * `pciReadConfigLong`
    * `PciVector`
    * `pciBusScan`
    * `pciRecursiveScan`

  Key theorems include:
    * `pciReadConfigLong_eq`
-/

namespace Ester

namespace Pci

------------------------------------------------------------
-- Configuration Space
------------------------------------------------------------

/- The words at bus, device, function and offset. -/
abbrev ConfigSpace :=
  UInt8 → UInt8 → UInt8 → UInt8 → UInt32

/-
  The data port after an address was written: the host
  bridge decodes bus, device, function and register.
-/
def ConfigSpace.port
    (config : ConfigSpace)
    (addr : UInt32) : UInt32 :=
  if addr &&& 0x80000000 = 0 then 0xFFFFFFFF
  else
    config (addr >>> 16 &&& 0xFF).toUInt8
      (addr >>> 11 &&& 0x1F).toUInt8
      (addr >>> 8 &&& 0x7).toUInt8
      (addr &&& 0xFC).toUInt8

/- The value written to the address port. -/
def configAddress
    (bus device function offset : UInt8) : UInt32 :=
  (bus.toUInt32 <<< 16) ||| (device.toUInt32 <<< 11) |||
    (function.toUInt32 <<< 8) |||
    (offset &&& 0xFC).toUInt32 ||| 0x80000000

/- Read a word through the two ports. -/
def pciReadConfigLong
    (config : ConfigSpace)
    (bus device function offset : UInt8) : UInt32 :=
  config.port (configAddress bus device function offset)

/- The value of the address is the sum of its fields. -/
theorem toNat_configAddress
    {bus device function offset : UInt8}
    (hDevice : device.toNat < 32)
    (hFunction : function.toNat < 8) :
    (configAddress bus device function offset).toNat =
      2 ^ 31 + (2 ^ 16 * bus.toNat + (2 ^ 11 * device.toNat +
        (2 ^ 8 * function.toNat +
          (offset &&& 0xFC).toNat))) := by
  have hBus := bus.toNat_lt
  have hOffset := (offset &&& 0xFC).toNat_lt
  have hTop : (0x80000000 : UInt32).toNat = 2 ^ 31 * 1 := rfl
  have h16 := UInt32.toNat_byte_shiftLeft bus (k := 16)
    (by decide)
  have h11 := UInt32.toNat_byte_shiftLeft device (k := 11)
    (by decide)
  have h8 := UInt32.toNat_byte_shiftLeft function (k := 8)
    (by decide)
  have hSum₈ := Nat.two_pow_add_eq_or_of_lt (i := 8)
    (b := (offset &&& 0xFC).toNat) (by omega) function.toNat
  have hSum₁₁ := Nat.two_pow_add_eq_or_of_lt (i := 11)
    (b := 2 ^ 8 * function.toNat + (offset &&& 0xFC).toNat)
    (by omega) device.toNat
  have hSum₁₆ := Nat.two_pow_add_eq_or_of_lt (i := 16)
    (b := 2 ^ 11 * device.toNat + (2 ^ 8 * function.toNat +
      (offset &&& 0xFC).toNat)) (by omega) bus.toNat
  have hSum₃₁ := Nat.two_pow_add_eq_or_of_lt (i := 31)
    (b := 2 ^ 16 * bus.toNat + (2 ^ 11 * device.toNat +
      (2 ^ 8 * function.toNat + (offset &&& 0xFC).toNat)))
    (by omega) 1
  rw [configAddress, UInt32.toNat_or, UInt32.toNat_or,
    UInt32.toNat_or, UInt32.toNat_or, UInt8.toNat_toUInt32,
    hTop]
  rw [show (16 : UInt32) = UInt32.ofNat 16 from rfl, h16,
    show (11 : UInt32) = UInt32.ofNat 11 from rfl, h11,
    show (8 : UInt32) = UInt32.ofNat 8 from rfl, h8,
    Nat.or_comm _ (2 ^ 31 * 1), Nat.or_assoc, Nat.or_assoc,
    ← hSum₈, ← hSum₁₁, ← hSum₁₆, ← hSum₃₁, Nat.mul_one]

/-
  A read within the bus reaches the word of the space: the
  host bridge decodes what the code has put together.
-/
theorem pciReadConfigLong_eq
    (config : ConfigSpace)
    {bus device function : UInt8}
    (offset : UInt8)
    (hDevice : device.toNat < 32)
    (hFunction : function.toNat < 8) :
    pciReadConfigLong config bus device function offset =
      config bus device function (offset &&& 0xFC) := by
  have hBus := bus.toNat_lt
  have hOffset := (offset &&& 0xFC).toNat_lt
  have hSum := @toNat_configAddress bus device function offset
    hDevice hFunction
  have hRegister : (offset &&& 0xFC).toNat % 4 = 0 := by
    rw [UInt8.toNat_and, show (0xFC : UInt8).toNat =
      2 ^ 2 * (2 ^ 6 - 1) from rfl,
      and_high_mask 2 6 (by simpa using offset.toNat_lt)]
    omega
  rw [pciReadConfigLong, ConfigSpace.port]
  generalize configAddress bus device function offset = addr
    at hSum
  have hTop : addr &&& 0x80000000 ≠ 0 := by
    intro hZero
    have hNat := congrArg UInt32.toNat hZero
    rw [UInt32.toNat_and, show (0x80000000 : UInt32).toNat =
      2 ^ 31 * (2 ^ 1 - 1) from rfl,
      and_high_mask 31 1 (by simpa using addr.toNat_lt), hSum]
      at hNat
    simp only [UInt32.toNat_zero] at hNat
    omega
  have h16 := addr.toNat_field (k := 16) (w := 8) (by decide)
    (by decide)
  have h11 := addr.toNat_field (k := 11) (w := 5) (by decide)
    (by decide)
  have h8 := addr.toNat_field (k := 8) (w := 3) (by decide)
    (by decide)
  have h0 : (addr &&& 0xFC).toNat = addr.toNat % 256 / 4 * 4 := by
    have hMask : (0xFC : UInt32) = 0xFF &&& ~~~3 := by decide
    rw [hMask, ← UInt32.and_assoc, UInt32.toNat_and,
      show (~~~(3 : UInt32)).toNat = 2 ^ 2 * (2 ^ 30 - 1)
        from rfl,
      and_high_mask 2 30 (by
        simpa using (addr &&& 0xFF).toNat_lt),
      UInt32.toNat_and, show (0xFF : UInt32).toNat = 2 ^ 8 - 1
        from rfl, Nat.and_two_pow_sub_one_eq_mod]
    rfl
  rw [hSum] at h16 h11 h8 h0
  have eBus : (addr >>> 16 &&& 0xFF).toUInt8 = bus := by
    rw [← UInt8.toNat_inj, UInt32.toNat_toUInt8,
      show addr >>> 16 &&& 0xFF = addr >>> UInt32.ofNat 16 &&&
        UInt32.ofNat (2 ^ 8 - 1) from rfl, h16]
    omega
  have eDevice : (addr >>> 11 &&& 0x1F).toUInt8 = device := by
    rw [← UInt8.toNat_inj, UInt32.toNat_toUInt8,
      show addr >>> 11 &&& 0x1F = addr >>> UInt32.ofNat 11 &&&
        UInt32.ofNat (2 ^ 5 - 1) from rfl, h11]
    omega
  have eFunction : (addr >>> 8 &&& 0x7).toUInt8 = function := by
    rw [← UInt8.toNat_inj, UInt32.toNat_toUInt8,
      show addr >>> 8 &&& 0x7 = addr >>> UInt32.ofNat 8 &&&
        UInt32.ofNat (2 ^ 3 - 1) from rfl, h8]
    omega
  have eOffset : (addr &&& 0xFC).toUInt8 = offset &&& 0xFC := by
    rw [← UInt8.toNat_inj, UInt32.toNat_toUInt8, h0]
    omega
  rw [if_neg hTop, eBus, eDevice, eFunction, eOffset]

def pciGetVendorId
    (config : ConfigSpace)
    (bus device function : UInt8) : UInt16 :=
  (pciReadConfigLong config bus device function 0x00 &&&
    0x0000FFFF).toUInt16

def pciGetHeaderType
    (config : ConfigSpace)
    (bus device function : UInt8) : UInt8 :=
  ((pciReadConfigLong config bus device function 0x0C &&&
    0x00FF0000) >>> 16).toUInt8

def pciGetClassCode
    (config : ConfigSpace)
    (bus device function : UInt8) : UInt8 :=
  ((pciReadConfigLong config bus device function 0x08 &&&
    0xFF000000) >>> 24).toUInt8

def pciGetSubClassCode
    (config : ConfigSpace)
    (bus device function : UInt8) : UInt8 :=
  ((pciReadConfigLong config bus device function 0x08 &&&
    0x00FF0000) >>> 16).toUInt8

def pciGetSecondaryBus
    (config : ConfigSpace)
    (bus device function : UInt8) : UInt8 :=
  ((pciReadConfigLong config bus device function 0x18 &&&
    0x0000FF00) >>> 8).toUInt8

------------------------------------------------------------
-- The Vector of Devices
------------------------------------------------------------

/- The constant `PCI_MAX_DEVICES`. -/
abbrev pciMaxDevices : Nat := 128

/- The constant `PCI_NO_VENDOR`. -/
abbrev pciNoVendor : UInt16 := 0xFFFF

/- The constants of `pci_vector_dev_add`. -/
abbrev pciVectorDevAddErr : UInt8 := 1

abbrev pciVectorDevAddSucc : UInt8 := 0

/- A function of a device on a bus, `pci_dev_t`. -/
structure PciDev where
  bus : UInt8
  device : UInt8
  function : UInt8
deriving DecidableEq

/-
  The first `pci_devices_cnt` entries of the fixed array,
  which are never more than there is room for.
-/
structure PciVector where
  devices : List PciDev
  room : devices.length ≤ pciMaxDevices

/- The vector after `pci_vector_dev_init`. -/
def pciVectorDevInit : PciVector :=
  ⟨[], Nat.zero_le _⟩

/- The count `pci_devices_cnt`. -/
def PciVector.cnt
    (v : PciVector) : Nat :=
  v.devices.length

/- Add a function, or report that there is no room. -/
def pciVectorDevAdd
    (bus device function : UInt8)
    (v : PciVector) : UInt8 × PciVector :=
  if hFull : pciMaxDevices ≤ v.cnt then
    (pciVectorDevAddErr, v)
  else
    (pciVectorDevAddSucc,
      ⟨v.devices ++ [⟨bus, device, function⟩], by
        rw [List.length_append, List.length_singleton]
        exact Nat.lt_of_not_le hFull⟩)

------------------------------------------------------------
-- Scanning
------------------------------------------------------------

/- Whether a function is a bridge to a further bus. -/
def isBridge
    (config : ConfigSpace)
    (bus device function : UInt8) : Bool :=
  pciGetClassCode config bus device function == 0x06 &&
    pciGetSubClassCode config bus device function == 0x04

/-
  Scan a function: first the bus behind it, then add it.  A
  full vector only leads to a message.
-/
def pciFunctionScan
    (config : ConfigSpace)
    (busScan : UInt8 → PciVector → Option PciVector)
    (bus device function : UInt8)
    (v : PciVector) : Option PciVector :=
  match
    if isBridge config bus device function then
      busScan (pciGetSecondaryBus config bus device function) v
    else some v
  with
  | none => none
  | some w => some (pciVectorDevAdd bus device function w).2

/- Scan the functions of a device that are present. -/
def pciDeviceScan
    (config : ConfigSpace)
    (busScan : UInt8 → PciVector → Option PciVector)
    (bus device : UInt8)
    (v : PciVector) : Option PciVector :=
  if pciGetVendorId config bus device 0 = pciNoVendor then
    some v
  else
    match pciFunctionScan config busScan bus device 0 v with
    | none => none
    | some w =>
        if pciGetHeaderType config bus device 0 &&& 0x80 ≠ 0 then
          (List.range' 1 7).foldlM
            (fun u function =>
              if pciGetVendorId config bus device
                  (UInt8.ofNat function) ≠ pciNoVendor then
                pciFunctionScan config busScan bus device
                  (UInt8.ofNat function) u
              else some u) w
        else some w

/-
  Scan the 32 devices of a bus.  The fuel bounds how deep
  the buses lie behind one another.
-/
def pciBusScan
    (config : ConfigSpace) :
    (fuel : Nat) → UInt8 → PciVector → Option PciVector
  | 0, _, _ => none
  | fuel + 1, bus, v =>
      (List.range 32).foldlM
        (fun u device => pciDeviceScan config
          (pciBusScan config fuel) bus (UInt8.ofNat device) u) v

/-
  The loop over the functions of the host root complex, where
  a function is treated as a bus.  The first function that is
  not present stops it.
-/
def scanHosts
    (config : ConfigSpace)
    (fuel : Nat) :
    List Nat → PciVector → Option PciVector
  | [], v => some v
  | i :: is, v =>
      if pciGetVendorId config 0 0 (UInt8.ofNat i) =
          pciNoVendor then
        some v
      else
        match pciBusScan config fuel (UInt8.ofNat i) v with
        | none => none
        | some w => scanHosts config fuel is w

/- Scan from the root complex, always 0, 0, 0. -/
def pciRecursiveScan
    (config : ConfigSpace)
    (fuel : Nat) : Option PciVector :=
  if pciGetHeaderType config 0 0 0 &&& 0x80 = 0 then
    if pciGetVendorId config 0 0 0 = pciNoVendor then
      some pciVectorDevInit
    else pciBusScan config fuel 0 pciVectorDevInit
  else scanHosts config fuel (List.range 8) pciVectorDevInit

end Pci

end Ester
