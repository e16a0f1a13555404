import Ester.Library.DepthFirst
import Ester.Pci

/-
  The bus scan lists the functions of the tree of buses in
  depth-first order.

  Presence of a function and the bus behind a bridge are
  read from the configuration space itself.  When firmware
  has numbered the buses so that a bridge leads to a higher
  bus and no two bridges lead to the same one, the buses
  form a tree with at most 256 levels, and the scan adds the
  functions of that tree in order until the vector is full.

  Key definitions include:
    * `Present`
    * `behind`
    * `presentFunctions`
    * `Configured`

  Key theorems include:
    * `mem_presentFunctions`
    * `pciBusScan_eq`
    * `pciBusScan_depthFirst`
-/

namespace Ester

namespace Pci

------------------------------------------------------------
-- Functions and Bridges
------------------------------------------------------------

/- The vendor of a function. -/
def ConfigSpace.vendor
    (config : ConfigSpace)
    (bus device function : UInt8) : UInt16 :=
  (config bus device function 0x00 &&& 0x0000FFFF).toUInt16

/- Whether a device has more functions than the first. -/
def ConfigSpace.multiFunction
    (config : ConfigSpace)
    (bus device : UInt8) : Bool :=
  ((config bus device 0 0x0C &&& 0x00FF0000) >>> 16).toUInt8 &&&
    0x80 != 0

/- A function that the scan has to find. -/
def Present
    (config : ConfigSpace)
    (f : PciDev) : Prop :=
  f.device.toNat < 32 ∧ f.function.toNat < 8 ∧
    config.vendor f.bus f.device 0 ≠ pciNoVendor ∧
    (f.function = 0 ∨
      config.multiFunction f.bus f.device = true ∧
        config.vendor f.bus f.device f.function ≠ pciNoVendor)

/- The secondary bus of a bridge. -/
def behind
    (config : ConfigSpace)
    (f : PciDev) : Option UInt8 :=
  let classes := config f.bus f.device f.function 0x08
  if ((classes &&& 0xFF000000) >>> 24).toUInt8 = 0x06 ∧
      ((classes &&& 0x00FF0000) >>> 16).toUInt8 = 0x04 then
    some ((config f.bus f.device f.function 0x18 &&&
      0x0000FF00) >>> 8).toUInt8
  else none

/- The present functions of a device in ascending order. -/
def deviceFunctions
    (config : ConfigSpace)
    (bus device : UInt8) : List PciDev :=
  if config.vendor bus device 0 = pciNoVendor then []
  else
    ⟨bus, device, 0⟩ ::
      if config.multiFunction bus device then
        (List.range' 1 7).flatMap fun function =>
          if config.vendor bus device (UInt8.ofNat function) ≠
              pciNoVendor then
            [⟨bus, device, UInt8.ofNat function⟩]
          else []
      else []

/- The present functions of a bus in ascending order. -/
def presentFunctions
    (config : ConfigSpace)
    (bus : UInt8) : List PciDev :=
  (List.range 32).flatMap fun device =>
    deviceFunctions config bus (UInt8.ofNat device)

/-
  The numbering that firmware leaves behind: a bridge leads
  to a higher bus, and no two bridges lead to the same one.
-/
structure Configured (config : ConfigSpace) : Prop where
  deeper : ∀ f b, Present config f → behind config f = some b →
    f.bus.toNat < b.toNat
  single : ∀ f g b, Present config f → Present config g →
    behind config f = some b → behind config g = some b → f = g

theorem toNat_ofNat_byte
    {n : Nat}
    (hn : n < 256) :
    (UInt8.ofNat n).toNat = n :=
  UInt8.toNat_ofNat_of_lt' (by
    simp only [UInt8.size]
    exact hn)

theorem mem_deviceFunctions
    (config : ConfigSpace)
    (bus device : UInt8)
    (hDevice : device.toNat < 32)
    (f : PciDev) :
    f ∈ deviceFunctions config bus device ↔
      f.bus = bus ∧ f.device = device ∧ Present config f := by
  rw [deviceFunctions, Present]
  by_cases hVendor : config.vendor bus device 0 = pciNoVendor
  · rw [if_pos hVendor]
    constructor
    · intro h
      cases h
    · rintro ⟨rfl, rfl, -, -, hPresent, -⟩
      exact absurd hVendor hPresent
  · rw [if_neg hVendor, List.mem_cons]
    constructor
    · rintro (rfl | hMore)
      · exact ⟨rfl, rfl, hDevice, Nat.zero_lt_succ 7, hVendor,
          .inl rfl⟩
      · by_cases hMulti : config.multiFunction bus device = true
        · rw [if_pos hMulti, List.mem_flatMap] at hMore
          rcases hMore with ⟨function, hRange, hMember⟩
          rw [List.mem_range'_1] at hRange
          split at hMember
          · rename_i hFound
            rw [List.mem_singleton] at hMember
            subst hMember
            refine ⟨rfl, rfl, hDevice, ?_, hVendor,
              .inr ⟨hMulti, hFound⟩⟩
            rw [toNat_ofNat_byte (by omega)]
            omega
          · cases hMember
        · rw [if_neg hMulti] at hMore
          cases hMore
    · rintro ⟨rfl, rfl, -, hFunction, -, hZero | ⟨hMulti, hFound⟩⟩
      · left
        rw [← hZero]
      · by_cases hZero : f.function = 0
        · left
          rw [← hZero]
        · right
          have hPos : f.function.toNat ≠ 0 := by
            intro h
            exact hZero (UInt8.toNat_inj.mp h)
          rw [if_pos hMulti, List.mem_flatMap]
          refine ⟨f.function.toNat, ?_, ?_⟩
          · rw [List.mem_range'_1]
            omega
          · rw [UInt8.ofNat_toNat, if_pos hFound,
              List.mem_singleton]

/- The listing of a bus holds its present functions. -/
theorem mem_presentFunctions
    (config : ConfigSpace)
    (bus : UInt8)
    (f : PciDev) :
    f ∈ presentFunctions config bus ↔
      f.bus = bus ∧ Present config f := by
  rw [presentFunctions, List.mem_flatMap]
  constructor
  · rintro ⟨device, hRange, hMember⟩
    rw [List.mem_range] at hRange
    rw [mem_deviceFunctions config bus _ (by
      rw [toNat_ofNat_byte (by omega)]
      omega)] at hMember
    exact ⟨hMember.1, hMember.2.2⟩
  · rintro ⟨hBus, hPresent⟩
    refine ⟨f.device.toNat, List.mem_range.mpr hPresent.1, ?_⟩
    rw [mem_deviceFunctions config bus _ (by
      rw [UInt8.ofNat_toNat]
      exact hPresent.1)]
    exact ⟨hBus, by rw [UInt8.ofNat_toNat], hPresent⟩

/- The place of a function in the ascending order. -/
def place
    (f : PciDev) : Nat :=
  8 * f.device.toNat + f.function.toNat

theorem deviceFunctions_ascending
    (config : ConfigSpace)
    (bus device : UInt8) :
    (deviceFunctions config bus device).Pairwise
      fun f g => place f < place g := by
  rw [deviceFunctions]
  by_cases hVendor : config.vendor bus device 0 = pciNoVendor
  · rw [if_pos hVendor]
    exact .nil
  · rw [if_neg hVendor]
    by_cases hMulti : config.multiFunction bus device = true
    · rw [if_pos hMulti, List.pairwise_cons]
      constructor
      · intro f hMember
        rw [List.mem_flatMap] at hMember
        rcases hMember with ⟨function, hRange, hMember⟩
        rw [List.mem_range'_1] at hRange
        split at hMember
        · rw [List.mem_singleton] at hMember
          subst hMember
          simp only [place, toNat_ofNat_byte
            (show function < 256 by omega), UInt8.toNat_zero]
          omega
        · cases hMember
      · rw [List.pairwise_flatMap]
        constructor
        · intro function _
          split
          · exact List.pairwise_singleton _ _
          · exact .nil
        · have hAscending : (List.range' 1 7).Pairwise
              fun i j => i < j := List.pairwise_lt_range'
          apply hAscending.imp_of_mem
          intro i j hi hj hLt f hf g hg
          rw [List.mem_range'_1] at hi hj
          split at hf
          · rw [List.mem_singleton] at hf
            subst hf
            split at hg
            · rw [List.mem_singleton] at hg
              subst hg
              simp only [place,
                toNat_ofNat_byte (show i < 256 by omega),
                toNat_ofNat_byte (show j < 256 by omega)]
              omega
            · cases hg
          · cases hf
    · rw [if_neg hMulti]
      exact List.pairwise_singleton _ _

/- The listing of a bus is strictly ascending. -/
theorem presentFunctions_ascending
    (config : ConfigSpace)
    (bus : UInt8) :
    (presentFunctions config bus).Pairwise
      fun f g => place f < place g := by
  rw [presentFunctions, List.pairwise_flatMap]
  constructor
  · intro device _
    exact deviceFunctions_ascending config bus _
  · apply List.pairwise_lt_range.imp_of_mem
    intro i j hi hj hLt f hf g hg
    rw [List.mem_range] at hi hj
    have hOf := toNat_ofNat_byte (show i < 256 by omega)
    have hOf' := toNat_ofNat_byte (show j < 256 by omega)
    rw [mem_deviceFunctions config bus _ (by omega)] at hf hg
    have hFunction := hf.2.2.2.1
    rw [place, place, hf.2.1, hg.2.1, hOf, hOf']
    omega

theorem nodup_presentFunctions
    (config : ConfigSpace)
    (bus : UInt8) :
    (presentFunctions config bus).Nodup := by
  apply (presentFunctions_ascending config bus).imp
  intro f g hLt hEq
  rw [hEq] at hLt
  exact Nat.lt_irrefl _ hLt

/- A function is on the bus that lists it. -/
theorem presentFunctions_node
    (config : ConfigSpace) :
    ∀ b c, ∀ f ∈ presentFunctions config b,
      f ∈ presentFunctions config c → b = c := by
  intro b c f hB hC
  rw [mem_presentFunctions] at hB hC
  exact hB.1.symm.trans hC.1

section Configured

variable {config : ConfigSpace}
variable (hConfigured : Configured config)

include hConfigured

/- A bridge leads from its bus to a higher one. -/
theorem Configured.ascends :
    ∀ b, ∀ f ∈ presentFunctions config b, ∀ c,
      behind config f = some c → b.toNat < c.toNat := by
  intro b f hMember c hDown
  rw [mem_presentFunctions] at hMember
  have hDeeper := hConfigured.deeper f c hMember.2 hDown
  rw [hMember.1] at hDeeper
  exact hDeeper

/- The bridge to a bus is the only one. -/
theorem Configured.parent :
    ∀ b c, ∀ f ∈ presentFunctions config b,
      ∀ g ∈ presentFunctions config c, ∀ d,
      behind config f = some d → behind config g = some d →
        f = g := by
  intro b c f hB g hC d hF hG
  rw [mem_presentFunctions] at hB hC
  exact hConfigured.single f g d hB.2 hC.2 hF hG

end Configured

------------------------------------------------------------
-- What the Code Reads
------------------------------------------------------------

section Reads

variable (config : ConfigSpace)
variable (bus : UInt8)
variable {device function : UInt8}
variable (hDevice : device.toNat < 32)
variable (hFunction : function.toNat < 8)

include hDevice

include hFunction in
theorem pciGetVendorId_eq :
    pciGetVendorId config bus device function =
      config.vendor bus device function := by
  rw [pciGetVendorId, pciReadConfigLong_eq config _ hDevice
    hFunction]
  rfl

theorem pciGetHeaderType_eq :
    (pciGetHeaderType config bus device 0 &&& 0x80 != 0) =
      config.multiFunction bus device := by
  rw [pciGetHeaderType, pciReadConfigLong_eq config _ hDevice
    (show (0 : UInt8).toNat < 8 by decide)]
  rfl

include hFunction in
/- The code's test for a bridge finds the bus behind it. -/
theorem isBridge_eq :
    behind config ⟨bus, device, function⟩ =
      if isBridge config bus device function then
        some (pciGetSecondaryBus config bus device function)
      else none := by
  simp only [isBridge, pciGetClassCode, pciGetSubClassCode,
    pciGetSecondaryBus,
    pciReadConfigLong_eq config _ hDevice hFunction,
    Bool.and_eq_true, beq_iff_eq]
  rfl

end Reads

------------------------------------------------------------
-- The Vector
------------------------------------------------------------

/- Add functions in order. -/
def addAll
    (v : PciVector)
    (fs : List PciDev) : PciVector :=
  fs.foldl
    (fun u f => (pciVectorDevAdd f.bus f.device f.function u).2)
    v

theorem addAll_append
    (v : PciVector)
    (fs gs : List PciDev) :
    addAll v (fs ++ gs) = addAll (addAll v fs) gs :=
  List.foldl_append

/- The vector keeps the first functions it has room for. -/
theorem devices_addAll
    (v : PciVector)
    (fs : List PciDev) :
    (addAll v fs).devices =
      (v.devices ++ fs).take pciMaxDevices := by
  induction fs generalizing v with
  | nil =>
      rw [List.append_nil, List.take_of_length_le v.room]
      rfl
  | cons f fs ih =>
      have hStep : addAll v (f :: fs) =
          addAll (pciVectorDevAdd f.bus f.device f.function v).2
            fs := rfl
      rw [hStep, ih, pciVectorDevAdd]
      by_cases hFull : pciMaxDevices ≤ v.cnt
      · have hLength : v.devices.length = pciMaxDevices :=
          Nat.le_antisymm v.room hFull
        rw [dif_pos hFull, List.take_append_of_le_length
          (Nat.le_of_eq hLength.symm),
          List.take_append_of_le_length
          (Nat.le_of_eq hLength.symm)]
      · rw [dif_neg hFull, List.append_assoc,
          List.singleton_append]

/- A loop whose steps add functions adds all of them. -/
theorem foldlM_addAll
    {ι : Type}
    {step : PciVector → ι → Option PciVector}
    {found : ι → List PciDev}
    {l : List ι}
    (hStep : ∀ i ∈ l, ∀ v, step v i = some (addAll v (found i)))
    (v : PciVector) :
    l.foldlM step v = some (addAll v (l.flatMap found)) := by
  induction l generalizing v with
  | nil => rfl
  | cons i l ih =>
      rw [List.foldlM_cons, hStep i (by simp), List.flatMap_cons,
        addAll_append]
      exact ih (fun j hj => hStep j (by simp [hj])) _

------------------------------------------------------------
-- The Scan
------------------------------------------------------------

section Scan

variable {config : ConfigSpace}
variable {busScan : UInt8 → PciVector → Option PciVector}
variable {order : UInt8 → List PciDev}

/- Scanning a function adds what lies behind it and itself. -/
theorem pciFunctionScan_eq
    {f : PciDev}
    (hDevice : f.device.toNat < 32)
    (hFunction : f.function.toNat < 8)
    (hBehind : ∀ b, behind config f = some b → ∀ v,
      busScan b v = some (addAll v (order b)))
    (v : PciVector) :
    pciFunctionScan config busScan f.bus f.device f.function v =
      some (addAll v (withBehind (behind config) order f)) := by
  have hBridge := isBridge_eq config f.bus hDevice hFunction
  rw [pciFunctionScan, withBehind, addAll_append]
  by_cases hIs : isBridge config f.bus f.device f.function = true
  · rw [if_pos hIs] at hBridge
    rw [if_pos hIs, hBehind _ hBridge, hBridge]
    rfl
  · rw [if_neg hIs] at hBridge
    rw [if_neg hIs, hBridge]
    rfl

/- Scanning a device adds its present functions in turn. -/
theorem pciDeviceScan_eq
    {bus device : UInt8}
    (hDevice : device.toNat < 32)
    (hBehind : ∀ f b, Present config f → f.bus = bus →
      behind config f = some b → ∀ v,
        busScan b v = some (addAll v (order b)))
    (v : PciVector) :
    pciDeviceScan config busScan bus device v =
      some (addAll v ((deviceFunctions config bus device).flatMap
        (withBehind (behind config) order))) := by
  have hScan : ∀ f ∈ deviceFunctions config bus device, ∀ v,
      pciFunctionScan config busScan f.bus f.device f.function
        v = some (addAll v
          (withBehind (behind config) order f)) := by
    intro f hMember
    rw [mem_deviceFunctions config bus device hDevice]
      at hMember
    exact pciFunctionScan_eq hMember.2.2.1 hMember.2.2.2.1
      fun b => hBehind f b hMember.2.2 hMember.1
  rw [pciDeviceScan, pciGetVendorId_eq config bus hDevice
    (show (0 : UInt8).toNat < 8 by decide)]
  by_cases hVendor : config.vendor bus device 0 = pciNoVendor
  · rw [if_pos hVendor, deviceFunctions, if_pos hVendor]
    rfl
  · rw [deviceFunctions, if_neg hVendor] at hScan
    rw [if_neg hVendor, deviceFunctions, if_neg hVendor,
      hScan ⟨bus, device, 0⟩ (by simp)]
    have hHeader := pciGetHeaderType_eq config bus hDevice
    by_cases hMulti : config.multiFunction bus device = true
    · rw [hMulti, bne_iff_ne] at hHeader
      rw [if_pos hMulti] at hScan
      rw [if_pos hMulti]
      simp only [hHeader, ne_eq, not_false_eq_true, if_true]
      rw [List.flatMap_cons, addAll_append, List.flatMap_assoc]
      apply foldlM_addAll
      intro function hRange u
      have hBounds := List.mem_range'_1.mp hRange
      have hOf := toNat_ofNat_byte
        (show function < 256 by omega)
      rw [pciGetVendorId_eq config bus hDevice
        (show (UInt8.ofNat function).toNat < 8 by omega)]
      by_cases hFound : config.vendor bus device
          (UInt8.ofNat function) ≠ pciNoVendor
      · rw [if_pos hFound, if_pos hFound, List.flatMap_singleton]
        apply hScan ⟨bus, device, UInt8.ofNat function⟩
        rw [List.mem_cons, List.mem_flatMap]
        refine .inr ⟨function, hRange, ?_⟩
        rw [if_pos hFound, List.mem_singleton]
      · rw [if_neg hFound, if_neg hFound]
        rfl
    · rw [Bool.not_eq_true] at hMulti
      rw [hMulti, bne_eq_false_iff_eq] at hHeader
      simp only [hHeader, ne_eq, not_true_eq_false, if_false,
        hMulti, Bool.false_eq_true]
      rw [List.flatMap_cons, List.flatMap_nil, List.append_nil]

/- With buses numbered upwards the scan follows the order. -/
theorem pciBusScan_eq
    (hConfigured : Configured config)
    (hOrder : DepthFirst (presentFunctions config)
      (behind config) order)
    (fuel : Nat) :
    ∀ {bus : UInt8}, 256 ≤ fuel + bus.toNat → ∀ v,
      pciBusScan config fuel bus v =
        some (addAll v (order bus)) := by
  induction fuel with
  | zero =>
      intro bus hFuel
      have hBus := bus.toNat_lt
      omega
  | succ fuel ih =>
      intro bus hFuel v
      rw [pciBusScan, hOrder bus, presentFunctions,
        List.flatMap_assoc]
      apply foldlM_addAll
      intro device hRange u
      rw [List.mem_range] at hRange
      have hOf := toNat_ofNat_byte (show device < 256 by omega)
      apply pciDeviceScan_eq (by omega)
      intro f b hPresent hBus hDown
      have hDeeper := hConfigured.deeper f b hPresent hDown
      rw [hBus] at hDeeper
      exact ih (by omega)

end Scan

------------------------------------------------------------
-- The Whole Tree
------------------------------------------------------------

/-
  On a configured space the scan of bus 0 ends, and the
  vector holds the start of the depth-first order, which
  lists each present function of each reachable bus once.
-/
theorem pciBusScan_depthFirst
    (config : ConfigSpace)
    (hConfigured : Configured config) :
    ∃ order, DepthFirst (presentFunctions config)
        (behind config) order ∧
      (∀ fuel ≥ 256, ∃ v,
        pciBusScan config fuel 0 pciVectorDevInit = some v ∧
        v.devices = (order 0).take pciMaxDevices ∧
        v.cnt ≤ pciMaxDevices) ∧
      (order 0).Nodup ∧
      ∀ f, f ∈ order 0 ↔ Present config f ∧
        Below (presentFunctions config) (behind config) 0
          f.bus := by
  have hRank := hConfigured.ascends
  have hBound : ∀ b : UInt8, b.toNat < 256 := UInt8.toNat_lt
  rcases exists_depthFirst hRank 256 hBound with
    ⟨order, hOrder⟩
  refine ⟨order, hOrder, ?_, ?_, ?_⟩
  · intro fuel hFuel
    have hScan : pciBusScan config fuel 0 pciVectorDevInit =
        some (addAll pciVectorDevInit (order 0)) :=
      pciBusScan_eq hConfigured hOrder fuel
        (by simpa using hFuel) pciVectorDevInit
    refine ⟨_, hScan, ?_, (addAll _ _).room⟩
    rw [devices_addAll]
    rfl
  · exact hOrder.nodup hRank (presentFunctions_node config)
      hConfigured.parent hBound (nodup_presentFunctions config)
      0
  · intro f
    rw [hOrder.mem_iff hRank hBound]
    constructor
    · rintro ⟨c, hBelow, hMember⟩
      rw [mem_presentFunctions] at hMember
      rw [hMember.1]
      exact ⟨hMember.2, hBelow⟩
    · rintro ⟨hPresent, hBelow⟩
      exact ⟨f.bus, hBelow,
        (mem_presentFunctions config f.bus f).mpr
          ⟨rfl, hPresent⟩⟩

/- A bridge on bus 0 with one device behind it. -/
def bridgeConfig : ConfigSpace := fun bus device _ offset =>
  if bus = 0 ∧ device = 1 then
    if offset = 0 then 0x29188086
    else if offset = 0x08 then 0x06040000
    else if offset = 0x18 then 0x00000100
    else 0
  else if bus = 1 ∧ device = 0 then
    if offset = 0 then 0x29228086 else 0
  else 0xFFFFFFFF

theorem bridgeConfig_present
    {f : PciDev}
    (hPresent : Present bridgeConfig f) :
    f = ⟨0, 1, 0⟩ ∨ f = ⟨1, 0, 0⟩ := by
  rcases f with ⟨bus, device, function⟩
  rcases hPresent with ⟨-, -, hVendor, hFunction⟩
  have hPlace : (bus = 0 ∧ device = 1) ∨
      (bus = 1 ∧ device = 0) := by
    by_contra hOther
    rw [not_or] at hOther
    apply hVendor
    simp only [ConfigSpace.vendor, bridgeConfig,
      if_neg hOther.1, if_neg hOther.2]
    decide
  rcases hPlace with ⟨rfl, rfl⟩ | ⟨rfl, rfl⟩
  · left
    rcases hFunction with hZero | ⟨hMulti, -⟩
    · exact congrArg _ hZero
    · have hSingle : bridgeConfig.multiFunction 0 1 = false := by
        decide
      rw [hSingle] at hMulti
      cases hMulti
  · right
    rcases hFunction with hZero | ⟨hMulti, -⟩
    · exact congrArg _ hZero
    · have hSingle : bridgeConfig.multiFunction 1 0 = false := by
        decide
      rw [hSingle] at hMulti
      cases hMulti

theorem bridgeConfig_configured :
    Configured bridgeConfig where
  deeper := by
    intro f b hPresent hDown
    rcases bridgeConfig_present hPresent with rfl | rfl
    · cases hDown
      decide
    · cases hDown
  single := by
    intro f g b hF hG hDown hDown'
    rcases bridgeConfig_present hF with rfl | rfl
    · rcases bridgeConfig_present hG with rfl | rfl
      · rfl
      · cases hDown'
    · cases hDown

/- The scan of the bridge and the device behind it. -/
theorem pciBusScan_depthFirst_sample :
    ∃ order, DepthFirst (presentFunctions bridgeConfig)
        (behind bridgeConfig) order ∧
      (∀ fuel ≥ 256, ∃ v,
        pciBusScan bridgeConfig fuel 0 pciVectorDevInit =
          some v ∧
        v.devices = (order 0).take pciMaxDevices ∧
        v.cnt ≤ pciMaxDevices) ∧
      (order 0).Nodup ∧
      ∀ f, f ∈ order 0 ↔ Present bridgeConfig f ∧
        Below (presentFunctions bridgeConfig)
          (behind bridgeConfig) 0 f.bus :=
  pciBusScan_depthFirst bridgeConfig bridgeConfig_configured

example :
    (pciBusScan bridgeConfig 256 0 pciVectorDevInit).map
      PciVector.devices = some [⟨1, 0, 0⟩, ⟨0, 1, 0⟩] := by
  decide +kernel

end Pci

end Ester
