import Ester.Pci.Scan

/-
  The scan from the root complex.

  With one host the scan of bus 0 lists every function once.
  With several hosts the buses numbered like the present host
  functions are scanned in turn, although a bridge below one
  of them may lead to another: the functions of such a bus
  are listed again, as long as the vector has room.

  Key definitions include:
    * `treeFunctions`
    * `scannedHosts`
    * `HostsApart`

  Key theorems include:
    * `scanHosts_eq`
    * `pciRecursiveScan_devices`
    * `pciRecursiveScan_nodup_iff`
-/

namespace Ester

namespace Pci

------------------------------------------------------------
-- The Roots
------------------------------------------------------------

/- The present functions of a bus and of those behind it. -/
def treeFunctions
    (config : ConfigSpace) : UInt8 → List PciDev :=
  listing (presentFunctions config) (behind config) 256

theorem treeFunctions_depthFirst
    {config : ConfigSpace}
    (hConfigured : Configured config) :
    DepthFirst (presentFunctions config) (behind config)
      (treeFunctions config) := by
  intro b
  rw [treeFunctions, ← listing_succ hConfigured.ascends 256 b
    UInt8.toNat_lt (Nat.le_add_right _ _)]
  rfl

/- A tree is empty when its first bus is. -/
theorem treeFunctions_eq_nil_iff
    {config : ConfigSpace}
    (hConfigured : Configured config)
    (bus : UInt8) :
    treeFunctions config bus = [] ↔
      presentFunctions config bus = [] := by
  rw [treeFunctions_depthFirst hConfigured bus,
    List.flatMap_eq_nil_iff]
  constructor
  · intro hNone
    apply List.eq_nil_iff_forall_not_mem.mpr
    intro f hf
    have hEmpty := hNone f hf
    rw [withBehind, List.append_eq_nil_iff] at hEmpty
    cases hEmpty.2
  · intro hNil f hf
    rw [hNil] at hf
    cases hf

/- The number of the first host function that is absent. -/
def hostCount
    (config : ConfigSpace) : Nat :=
  (List.range 8).findIdx fun i =>
    config.vendor 0 0 (UInt8.ofNat i) == pciNoVendor

/- How many buses are scanned from the root complex. -/
def scannedHosts
    (config : ConfigSpace) : Nat :=
  if config.multiFunction 0 0 then hostCount config
  else if config.vendor 0 0 0 = pciNoVendor then 0
  else 1

/- The scanned buses carry the first 8 numbers. -/
theorem scannedHosts_le
    (config : ConfigSpace) :
    scannedHosts config ≤ 8 := by
  have hCount : hostCount config ≤ 8 := by
    rw [hostCount]
    exact List.findIdx_le_length.trans
      (Nat.le_of_eq List.length_range)
  rw [scannedHosts]
  split
  · exact hCount
  · split
    · exact Nat.zero_le _
    · decide

------------------------------------------------------------
-- The Loop
------------------------------------------------------------

section Scan

variable {config : ConfigSpace}
variable (hConfigured : Configured config)
variable {fuel : Nat}
variable (hFuel : 256 ≤ fuel)

include hConfigured hFuel

/- The loop adds the trees of the leading present hosts. -/
theorem scanHosts_eq
    {is : List Nat}
    (hHosts : ∀ i ∈ is, i < 8)
    (v : PciVector) :
    scanHosts config fuel is v =
      some (addAll v ((is.take (is.findIdx fun i =>
        config.vendor 0 0 (UInt8.ofNat i) == pciNoVendor)
        ).flatMap fun i =>
          treeFunctions config (UInt8.ofNat i))) := by
  induction is generalizing v with
  | nil => rfl
  | cons i is ih =>
      have hi := hHosts i (by simp)
      have hOf := toNat_ofNat_byte (show i < 256 by omega)
      rw [scanHosts, pciGetVendorId_eq config 0 (by decide)
        (show (UInt8.ofNat i).toNat < 8 by omega),
        List.findIdx_cons]
      by_cases hAbsent : config.vendor 0 0 (UInt8.ofNat i) =
          pciNoVendor
      · rw [if_pos hAbsent, beq_iff_eq.mpr hAbsent]
        rfl
      · have hScan := pciBusScan_eq hConfigured
          (treeFunctions_depthFirst hConfigured) fuel
          (show 256 ≤ fuel + (UInt8.ofNat i).toNat by omega) v
        rw [if_neg hAbsent, beq_eq_false_iff_ne.mpr hAbsent,
          hScan, cond_false, List.take_succ_cons,
          List.flatMap_cons, addAll_append]
        exact ih (fun j hj => hHosts j (by simp [hj])) _

/-
  The scan ends, and the vector holds the start of the
  trees of the scanned buses, one after the other.
-/
theorem pciRecursiveScan_devices :
    ∃ v, pciRecursiveScan config fuel = some v ∧
      v.devices = (rootOrders (treeFunctions config)
        UInt8.ofNat (scannedHosts config)).take
          pciMaxDevices := by
  have hHeader := pciGetHeaderType_eq config 0
    (show (0 : UInt8).toNat < 32 by decide)
  rw [pciRecursiveScan, pciGetVendorId_eq config 0 (by decide)
    (by decide), scannedHosts]
  by_cases hMulti : config.multiFunction 0 0 = true
  · rw [hMulti, bne_iff_ne] at hHeader
    rw [if_neg hHeader, if_pos hMulti,
      scanHosts_eq hConfigured hFuel
        (fun i hi => List.mem_range.mp hi)]
    refine ⟨_, rfl, ?_⟩
    rw [devices_addAll, ← hostCount, List.take_range,
      Nat.min_eq_left]
    · rfl
    · exact List.findIdx_le_length.trans
        (Nat.le_of_eq List.length_range)
  · rw [Bool.not_eq_true] at hMulti
    rw [hMulti, bne_eq_false_iff_eq] at hHeader
    rw [if_pos hHeader, hMulti]
    simp only [Bool.false_eq_true, if_false]
    by_cases hAbsent : config.vendor 0 0 0 = pciNoVendor
    · rw [if_pos hAbsent, if_pos hAbsent]
      exact ⟨_, rfl, rfl⟩
    · have hScan := pciBusScan_eq hConfigured
        (treeFunctions_depthFirst hConfigured) fuel
        (show 256 ≤ fuel + (0 : UInt8).toNat by
          simpa using hFuel) pciVectorDevInit
      rw [if_neg hAbsent, if_neg hAbsent, hScan]
      refine ⟨_, rfl, ?_⟩
      rw [devices_addAll, rootOrders_succ]
      rfl

end Scan

------------------------------------------------------------
-- No Function Twice
------------------------------------------------------------

/-
  No scanned bus that has functions lies below one scanned
  before it, as long as the vector is not full.
-/
def HostsApart
    (config : ConfigSpace) : Prop :=
  ∀ j < scannedHosts config, ∀ i < j,
    Below (presentFunctions config) (behind config)
      (UInt8.ofNat i) (UInt8.ofNat j) →
    presentFunctions config (UInt8.ofNat j) = [] ∨
      pciMaxDevices ≤ (rootOrders (treeFunctions config)
        UInt8.ofNat j).length

/-
  On a configured space the scan from the root complex ends,
  and it lists no function twice exactly when the scanned
  buses are apart.
-/
theorem pciRecursiveScan_nodup_iff
    (config : ConfigSpace)
    (hConfigured : Configured config)
    (fuel : Nat)
    (hFuel : 256 ≤ fuel) :
    ∃ v, pciRecursiveScan config fuel = some v ∧
      (v.devices.Nodup ↔ HostsApart config) := by
  rcases pciRecursiveScan_devices hConfigured hFuel with
    ⟨v, hScan, hDevices⟩
  refine ⟨v, hScan, ?_⟩
  have hCount := scannedHosts_le config
  have hAscending : ∀ j < scannedHosts config, ∀ i < j,
      (UInt8.ofNat i).toNat < (UInt8.ofNat j).toNat := by
    intro j hj i hi
    rw [toNat_ofNat_byte (by omega), toNat_ofNat_byte (by omega)]
    exact hi
  have hRoots := (treeFunctions_depthFirst hConfigured
    ).nodup_take_roots hConfigured.ascends
      (presentFunctions_node config) hConfigured.parent
      UInt8.toNat_lt (nodup_presentFunctions config) hAscending
      pciMaxDevices
  rw [hDevices, hRoots, HostsApart]
  simp only [treeFunctions_eq_nil_iff hConfigured]

/-
  A root of two functions, the second of them a bridge to a
  bus with one device.
-/
def hostConfig
    (below : UInt8) : ConfigSpace :=
  fun bus device function offset =>
    if bus = 0 ∧ device = 0 ∧ function = 0 then
      if offset = 0 then 0x12378086
      else if offset = 0x0C then 0x00800000
      else 0
    else if bus = 0 ∧ device = 0 ∧ function = 1 then
      if offset = 0 then 0x29188086
      else if offset = 0x08 then 0x06040000
      else if offset = 0x18 then below.toUInt32 <<< 8
      else 0
    else if bus = below ∧ device = 0 ∧ function = 0 then
      if offset = 0 then 0x29228086 else 0
    else 0xFFFFFFFF

section

variable {below : UInt8}

theorem hostConfig_vendor
    {bus device function : UInt8}
    (hVendor : (hostConfig below).vendor bus device function ≠
      pciNoVendor) :
    (bus = 0 ∧ device = 0 ∧ function = 0) ∨
      (bus = 0 ∧ device = 0 ∧ function = 1) ∨
      (bus = below ∧ device = 0 ∧ function = 0) := by
  by_contra hOther
  rw [not_or, not_or] at hOther
  apply hVendor
  simp only [ConfigSpace.vendor, hostConfig, if_neg hOther.1,
    if_neg hOther.2.1, if_neg hOther.2.2]
  decide

/- Only the second function of the root is a bridge. -/
theorem hostConfig_behind
    (hBridge : behind (hostConfig below) ⟨0, 0, 1⟩ = some below)
    {f : PciDev}
    {b : UInt8}
    (hPresent : Present (hostConfig below) f)
    (hDown : behind (hostConfig below) f = some b) :
    f = ⟨0, 0, 1⟩ ∧ b = below := by
  rcases f with ⟨bus, device, function⟩
  have hVendor : (hostConfig below).vendor bus device function ≠
      pciNoVendor := by
    rcases hPresent with ⟨-, -, hFirst, hZero | ⟨-, hFound⟩⟩
    · dsimp only at hZero
      rw [hZero]
      exact hFirst
    · exact hFound
  rcases hostConfig_vendor hVendor with
    ⟨rfl, rfl, rfl⟩ | ⟨rfl, rfl, rfl⟩ | ⟨rfl, rfl, rfl⟩
  · simp [behind, hostConfig] at hDown
  · exact ⟨rfl, (Option.some.inj (hBridge.symm.trans hDown)).symm⟩
  · simp [behind, hostConfig] at hDown

theorem hostConfig_configured
    (hBelow : 0 < below)
    (hBridge : behind (hostConfig below) ⟨0, 0, 1⟩ = some below) :
    Configured (hostConfig below) where
  deeper := by
    intro f b hPresent hDown
    rcases hostConfig_behind hBridge hPresent hDown
      with ⟨rfl, rfl⟩
    exact hBelow
  single := by
    intro f g b hF hG hDown hDown'
    rw [(hostConfig_behind hBridge hF hDown).1,
      (hostConfig_behind hBridge hG hDown').1]

end

/- With the device on bus 2 the scanned buses are apart. -/
theorem pciRecursiveScan_nodup_iff_bridge :
    scannedHosts (hostConfig 2) = 2 ∧
      ∃ v, pciRecursiveScan (hostConfig 2) 256 = some v ∧
        v.devices = [⟨0, 0, 0⟩, ⟨2, 0, 0⟩, ⟨0, 0, 1⟩] ∧
        v.devices.Nodup := by
  have hTwo : scannedHosts (hostConfig 2) = 2 := by
    decide +kernel
  have hDevices : (pciRecursiveScan (hostConfig 2) 256).map
      PciVector.devices =
        some [⟨0, 0, 0⟩, ⟨2, 0, 0⟩, ⟨0, 0, 1⟩] := by
    decide +kernel
  have hNone : presentFunctions (hostConfig 2) 1 = [] := by
    decide +kernel
  rcases pciRecursiveScan_nodup_iff (hostConfig 2)
      (hostConfig_configured (by decide) (by decide)) 256
      (Nat.le_refl _) with
    ⟨v, hScan, hNodup⟩
  refine ⟨hTwo, v, hScan, ?_, hNodup.mpr ?_⟩
  · rw [hScan, Option.map_some] at hDevices
    exact Option.some.inj hDevices
  · intro j hj i hi _
    rw [hTwo] at hj
    have hOne : j = 1 := by omega
    subst hOne
    exact .inl hNone

/-
  The device behind the bridge is listed before the bridge
  and again when bus 1 is scanned like a host.
-/
theorem pciRecursiveScan_twice :
    Configured (hostConfig 1) ∧
      ∃ v, pciRecursiveScan (hostConfig 1) 256 = some v ∧
        v.devices = [⟨0, 0, 0⟩, ⟨1, 0, 0⟩, ⟨0, 0, 1⟩,
          ⟨1, 0, 0⟩] ∧
        ¬ v.devices.Nodup := by
  have hDevices : (pciRecursiveScan (hostConfig 1) 256).map
      PciVector.devices = some [⟨0, 0, 0⟩, ⟨1, 0, 0⟩,
        ⟨0, 0, 1⟩, ⟨1, 0, 0⟩] := by
    decide +kernel
  rcases Option.map_eq_some_iff.mp hDevices with
    ⟨v, hScan, hList⟩
  refine ⟨hostConfig_configured (by decide) (by decide), v,
    hScan, hList, ?_⟩
  rw [hList]
  decide

end Pci

end Ester
