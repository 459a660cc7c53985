import Binkd.AddressFormat
import Binkd.Misc.Freq

/-!
# Where a request is written (`build_bso_paths` and `build_aso_paths` of `misc/freq.c`)

`freq` forms the path of a request file on its own.  It is the file that the mailer looks for
if and only if the domain's path has no capitals, or neither the zone nor a point has a
directory of its own (`freq_names_agree`).
-/

namespace Binkd

/-! ### The paths -/

/-- `str_tolower` of a byte: the ASCII letters only. -/
def lowerAscii (c : Byte) : Byte := if 65 ≤ c ∧ c ≤ 90 then c + 32 else c

/-- `str_tolower`. -/
def strTolower (s : Str) : Str := s.map lowerAscii

/-- `snprintf` into a buffer of `FREQ_MAX_PATH` bytes. -/
def freqPath (s : Str) : Str := s.take maxPathLen

/-- `build_bso_paths`; `mkdir` says whether a directory is there or can be made. -/
def buildBsoPaths (mkdir : Str → Bool) (outbound : Str) (zone net node point : ℕ) (useZoneExt : Bool) :
    Option (Str × Str) :=
  let baseDir :=
    if useZoneExt then
      strTolower (freqPath (outbound ++ str "." ++ hexPad (if zone > 0xFFF then 4 else 3) zone))
    else outbound
  if !mkdir baseDir then none
  else if point = 0 then
    some (freqPath (baseDir ++ str "/" ++ hexPad 4 net ++ hexPad 4 node ++ str ".req"),
      freqPath (baseDir ++ str "/" ++ hexPad 4 net ++ hexPad 4 node ++ str ".clo"))
  else
    let nodeDir := strTolower (freqPath (baseDir ++ str "/" ++ hexPad 4 net ++ hexPad 4 node ++ str ".pnt"))
    if !mkdir nodeDir then none
    else some (freqPath (nodeDir ++ str "/" ++ hexPad 8 point ++ str ".req"),
      freqPath (nodeDir ++ str "/" ++ hexPad 8 point ++ str ".clo"))

/-- `build_aso_paths`. -/
def buildAsoPaths (mkdir : Str → Bool) (outbound : Str) (zone net node point : ℕ) : Option (Str × Str) :=
  if !mkdir outbound then none
  else
    let reqPath := freqPath (outbound ++ str "/" ++ decimal zone ++ str "." ++ decimal net ++ str "." ++ decimal node ++
      str "." ++ decimal point ++ str ".req")
    -- the extension is found from behind
    let dot := reqPath.reverse.dropWhile (· != 46)
    some (reqPath, if dot = [] then reqPath else dot.tail.reverse ++ str ".clo")

/-! ### Lower case -/

variable {s t : Str} {mkdir : Str → Bool} {d : FtnDomain} {fa : FtnAddr}

@[simp] theorem strTolower_append (s t : Str) : strTolower (s ++ t) = strTolower s ++ strTolower t :=
    List.map_append

theorem lowerAscii_hex : ∀ k < 16, lowerAscii (Nat.digitChar k).toNat.toUInt8 =
    (Nat.digitChar k).toNat.toUInt8 := by
  decide +kernel

/-- The digits that `%x` prints are in lower case. -/
@[simp] theorem strTolower_hexPad (w n : ℕ) : strTolower (hexPad w n) = hexPad w n := by
  have hdigits : ∀ n, strTolower ((Nat.toDigits 16 n).map fun c => c.toNat.toUInt8) =
      (Nat.toDigits 16 n).map fun c => c.toNat.toUInt8 := by
    intro n
    induction n using Nat.strong_induction_on with
    | _ n ih =>
      rw [Nat.toDigits_eq_if (by decide)]
      split
      · next hlt => simp [strTolower, lowerAscii_hex n hlt]
      · next hge =>
        have hlow := lowerAscii_hex (n % 16) (Nat.mod_lt _ (by decide))
        rw [List.map_append, strTolower_append, ih (n / 16) (Nat.div_lt_self (by omega) (by decide))]
        simp [strTolower, hlow]
  unfold hexPad
  rw [strTolower_append, hdigits]
  simp [strTolower, lowerAscii]

/-- A path in lower case: no letter from `A` to `Z`. -/
def LowerCase (s : Str) : Prop := ∀ c ∈ s, ¬ (65 ≤ c ∧ c ≤ 90)

instance decidableLowerCase (s : Str) : Decidable (LowerCase s) :=
  inferInstanceAs (Decidable (∀ c ∈ s, ¬ (65 ≤ c ∧ c ≤ 90)))

theorem lowerAscii_eq_self (c : Byte) : lowerAscii c = c ↔ ¬ (65 ≤ c ∧ c ≤ 90) :=
  forall_byte (p := fun c => lowerAscii c = c ↔ ¬ (65 ≤ c ∧ c ≤ 90)) (by decide +kernel) c

theorem strTolower_eq_self : strTolower s = s ↔ LowerCase s := by
  unfold strTolower LowerCase
  conv_lhs => rw [← List.map_id s, List.map_map]
  rw [List.map_inj_left]
  exact forall₂_congr fun c _ => lowerAscii_eq_self c

/-- The zone has four digits from 4096 on in both programs. -/
theorem hexPad_zone (zone : ℕ) : hexPad (if zone > 0xFFF then 4 else 3) zone = hexPad 3 zone := by
  split_ifs with h
  · have hlen : ¬ (hexPad 3 zone).length ≤ 3 := by
      rw [hexPad_width (by decide)]
      omega
    have hfour : 4 ≤ ((Nat.toDigits 16 zone).map fun c => c.toNat.toUInt8).length := by
      rw [hexPad, List.length_append, List.length_replicate] at hlen
      omega
    unfold hexPad
    dsimp only
    rw [Nat.sub_eq_zero_of_le hfour, Nat.sub_eq_zero_of_le (Nat.le_of_succ_le hfour)]
  · rfl

/-! ### The two programs -/

/-- What stands behind the outbound of a domain in the name of a node. -/
def nodePart (fa : FtnAddr) (d : FtnDomain) : Str := zoneExt d fa.z ++ 47 :: nodeName fa

theorem filename_nodePart {pDomains : List FtnDomain} (hd : getDomainInfo fa.domain pDomains = some d) :
    ftnaddressToFilename fa pDomains = (d.root ++ nodePart fa d).take (maxPathLen - 1) := by
  unfold ftnaddressToFilename nodePart zoneExt nodeName FtnDomain.root
  rw [hd]
  dsimp only
  congr 1
  split_ifs <;> simp [str]

/-- Does `build_bso_paths` fold the case of the outbound? -/
def Folds (fa : FtnAddr) (d : FtnDomain) : Prop := fa.z ≠ d.z ∨ fa.p ≠ 0

instance decidableFolds (fa : FtnAddr) (d : FtnDomain) : Decidable (Folds fa d) :=
  inferInstanceAs (Decidable (_ ∨ _))

theorem toNat_eq_zero (p : Int32) : p.toUInt32.toNat = 0 ↔ p = 0 := by
  rw [← UInt32.toNat_zero, UInt32.toNat_inj]
  constructor
  · intro h
    have hval := congrArg UInt32.toInt32 h
    simpa using hval
  · rintro rfl
    rfl

theorem freqPath_length (s : Str) : (freqPath s).length ≤ maxPathLen := List.length_take_le _ _

/-- The paths that `freq` builds for an address of a domain. -/
def freqPaths (mkdir : Str → Bool) (fa : FtnAddr) (d : FtnDomain) : Option (Str × Str) :=
  buildBsoPaths mkdir d.root fa.z.toUInt32.toNat fa.net.toUInt32.toNat fa.node.toUInt32.toNat fa.p.toUInt32.toNat
    (fa.z ≠ d.z)

/-- The directory of the zone, and of the node in it. -/
def zoneDir (fa : FtnAddr) (d : FtnDomain) : Str :=
  if fa.z ≠ d.z then strTolower (freqPath (d.root ++ zoneExt d fa.z)) else d.root

def nodeStem (fa : FtnAddr) : Str := str "/" ++ hexInt 4 fa.net ++ hexInt 4 fa.node

theorem freqPaths_cases {req clo : Str} (hpaths : freqPaths mkdir fa d = some (req, clo)) :
    if fa.p = 0 then
      req = freqPath (zoneDir fa d ++ nodeStem fa ++ str ".req") ∧ clo = freqPath
      (zoneDir fa d ++ nodeStem fa ++ str ".clo")
    else
      req = freqPath (strTolower (freqPath (zoneDir fa d ++ nodeStem fa ++ str ".pnt")) ++ str "/" ++ hexInt 8 fa.p ++ str ".req") ∧
      clo = freqPath (strTolower (freqPath (zoneDir fa d ++ nodeStem fa ++ str ".pnt")) ++ str "/" ++ hexInt 8 fa.p ++ str ".clo") := by
  have hzone : (if decide (fa.z ≠ d.z) = true then
      strTolower (freqPath (d.root ++ str "." ++ hexPad (if fa.z.toUInt32.toNat > 0xFFF then 4 else 3) fa.z.toUInt32.toNat))
      else d.root) = zoneDir fa d := by
    unfold zoneDir
    by_cases hz : fa.z ≠ d.z
    · rw [if_pos (decide_eq_true hz), if_pos hz, hexPad_zone, zoneExt, if_pos hz, List.append_assoc]
      rfl
    · rw [if_neg (by simpa using hz), if_neg hz]
  unfold freqPaths buildBsoPaths at hpaths
  rw [hzone] at hpaths
  dsimp only at hpaths
  split_ifs at hpaths with hmk hp hmk'
  · rw [if_pos ((toNat_eq_zero _).mp hp)]
    obtain ⟨rfl, rfl⟩ := Prod.mk.inj (Option.some.inj hpaths)
    simp only [nodeStem, hexInt, List.append_assoc, and_self]
  · rw [if_neg fun h => hp ((toNat_eq_zero _).mpr h)]
    obtain ⟨rfl, rfl⟩ := Prod.mk.inj (Option.some.inj hpaths)
    simp only [nodeStem, hexInt, List.append_assoc, and_self]

theorem freqPath_eq (h : s.length ≤ maxPathLen) : freqPath s = s := List.take_of_length_le h

/-- The outbound as it stands in the paths. -/
def foldedRoot (fa : FtnAddr) (d : FtnDomain) : Str := if Folds fa d then strTolower d.root else d.root

/-- A path that is built has at most `MAXPATHLEN` bytes. -/
theorem freqPaths_length {req clo : Str} (hpaths : freqPaths mkdir fa d = some (req, clo)) :
    req.length ≤ maxPathLen := by
  have hcases := freqPaths_cases hpaths
  split_ifs at hcases
  all_goals
    rw [hcases.1]
    exact freqPath_length _

@[simp] theorem strTolower_length (s : Str) : (strTolower s).length = s.length := List.length_map _

theorem strTolower_idem (s : Str) : strTolower (strTolower s) = strTolower s := by
  have hidem (c : Byte) : lowerAscii (lowerAscii c) = lowerAscii c :=
    forall_byte (p := fun c => lowerAscii (lowerAscii c) = lowerAscii c) (by decide +kernel) c
  simp [strTolower, Function.comp_def, hidem]

theorem strTolower_zoneExt (d : FtnDomain) (z : Int32) : strTolower (zoneExt d z) = zoneExt d z := by
  unfold zoneExt
  split_ifs
  · have hcons : 46 :: hexInt 3 z = str "." ++ hexInt 3 z := rfl
    rw [hcons, strTolower_append, hexInt, strTolower_hexPad]
    rfl
  · rfl

theorem strTolower_nodeStem (fa : FtnAddr) : strTolower (nodeStem fa) = nodeStem fa := by
  rw [nodeStem, strTolower_append, strTolower_append, hexInt, hexInt, strTolower_hexPad, strTolower_hexPad]
  rfl

/-- The outbound as it stands in the directory of the zone. -/
def zoneRoot (fa : FtnAddr) (d : FtnDomain) : Str := if fa.z ≠ d.z then strTolower d.root else d.root

theorem zoneRoot_length : (zoneRoot fa d).length = d.root.length := by
  unfold zoneRoot
  split_ifs
  · exact strTolower_length _
  · rfl

theorem strTolower_zoneRoot : strTolower (zoneRoot fa d) = strTolower d.root := by
  unfold zoneRoot
  split_ifs
  · exact strTolower_idem _
  · rfl

theorem zoneDir_eq (hlen : d.root.length + (zoneExt d fa.z).length ≤ maxPathLen) :
    zoneDir fa d = zoneRoot fa d ++ zoneExt d fa.z := by
  unfold zoneDir zoneRoot
  split_ifs with hz
  · rw [freqPath_eq (by rw [List.length_append]; exact hlen), strTolower_append, strTolower_zoneExt]
  · rw [zoneExt, if_neg hz, List.append_nil]

/-- The directory of the points of a node, where it is not cut. -/
theorem pntDir_eq (hlen : d.root.length + (zoneExt d fa.z).length + (nodeStem fa).length + 4 ≤ maxPathLen) :
    strTolower (freqPath (zoneDir fa d ++ nodeStem fa ++ str ".pnt")) =
    strTolower d.root ++ zoneExt d fa.z ++ nodeStem fa ++ str ".pnt" := by
  have hpnt : strTolower (str ".pnt") = str ".pnt" := by decide
  have hpnt4 : (str ".pnt").length = 4 := by decide
  rw [zoneDir_eq (by omega), freqPath_eq (by simp only [List.length_append, zoneRoot_length, hpnt4]; omega)]
  rw [strTolower_append, strTolower_append, strTolower_append, strTolower_zoneRoot, strTolower_zoneExt,
    strTolower_nodeStem, hpnt]

theorem foldedRoot_node (hp : fa.p = 0) : foldedRoot fa d = zoneRoot fa d := by
  unfold foldedRoot Folds zoneRoot
  simp only [hp, ne_eq, not_true_eq_false, or_false]

theorem foldedRoot_point (hp : fa.p ≠ 0) : foldedRoot fa d = strTolower d.root := by
  have hfolds : Folds fa d := .inr hp
  rw [foldedRoot, if_pos hfolds]

/-- A path that is not cut is the outbound, in lower case where the program folds, with the part of
the node. -/
theorem freqPaths_eq {req clo : Str} (hpaths : freqPaths mkdir fa d = some (req, clo))
    (hfits : (d.root ++ nodePart fa d).length + 4 ≤ maxPathLen) :
    req = foldedRoot fa d ++ nodePart fa d ++ str ".req" ∧
    clo = foldedRoot fa d ++ nodePart fa d ++ str ".clo" := by
  have hlens : (str ".req").length = 4 ∧ (str ".clo").length = 4 ∧ (str ".pnt").length = 4 ∧
    (str "/").length = 1 := by decide
  obtain ⟨hreq4, hclo4, hpnt4, hslash⟩ := hlens
  have hcases := freqPaths_cases hpaths
  by_cases hp : fa.p = 0
  · have hpart : nodePart fa d = zoneExt d fa.z ++ nodeStem fa := by
      rw [nodePart, nodeName, if_neg (not_not_intro hp), List.append_nil]
      rfl
    rw [hpart] at hfits ⊢
    simp only [List.length_append] at hfits
    rw [if_pos hp, zoneDir_eq (by omega)] at hcases
    rw [freqPath_eq (by simp only [List.length_append, zoneRoot_length, hreq4]; omega),
      freqPath_eq (by simp only [List.length_append, zoneRoot_length, hclo4]; omega)] at hcases
    rw [foldedRoot_node hp]
    simpa only [List.append_assoc] using hcases
  · have hpart : nodePart fa d = zoneExt d fa.z ++ nodeStem fa ++ str ".pnt" ++ str "/" ++ hexInt 8 fa.p := by
      rw [nodePart, nodeName, if_pos hp]
      simp [nodeStem, str]
    rw [hpart] at hfits ⊢
    simp only [List.length_append, hpnt4, hslash] at hfits
    rw [if_neg hp, pntDir_eq (by omega)] at hcases
    rw [freqPath_eq (by simp only [List.length_append, strTolower_length, hpnt4, hslash, hreq4]; omega),
      freqPath_eq (by simp only [List.length_append, strTolower_length, hpnt4, hslash, hclo4]; omega)] at hcases
    rw [foldedRoot_point hp]
    simpa only [List.append_assoc] using hcases

/-- The names agree where the path has room for the extension, and where `freq` folds its case only
if it is in lower case already. -/
def NamesAgree (fa : FtnAddr) (d : FtnDomain) : Prop :=
  (d.root ++ nodePart fa d).length + 4 ≤ maxPathLen ∧ (Folds fa d → LowerCase d.root)

/-- `freq` and the mailer name the files of an address alike exactly under that condition. -/
theorem freq_names_agree {pDomains : List FtnDomain} (hd : getDomainInfo fa.domain pDomains = some d)
    {req clo : Str}
    (hpaths : freqPaths mkdir fa d = some (req, clo)) :
    (req = ftnaddressToFilename fa pDomains ++ str ".req" ∧ clo = ftnaddressToFilename fa pDomains ++ str ".clo") ↔
      NamesAgree fa d := by
  have hreq4 : (str ".req").length = 4 := by decide
  rw [filename_nodePart hd]
  by_cases hfits : (d.root ++ nodePart fa d).length + 4 ≤ maxPathLen
  · obtain ⟨hreq, hclo⟩ := freqPaths_eq hpaths hfits
    have hfold : foldedRoot fa d = d.root ↔ (Folds fa d → LowerCase d.root) := by
      unfold foldedRoot
      split_ifs with h
      · rw [strTolower_eq_self]
        exact ⟨fun hl _ => hl, fun hl => hl h⟩
      · exact iff_of_true rfl fun hf => absurd hf h
    rw [NamesAgree, and_iff_right hfits, ← hfold, hreq, hclo, List.take_of_length_le (by omega)]
    constructor
    · intro h
      exact List.append_cancel_right (List.append_cancel_right h.1)
    · intro h
      rw [h]
      exact ⟨rfl, rfl⟩
  · refine iff_of_false ?_ fun h => hfits h.1
    rintro ⟨hreq, -⟩
    have hle := freqPaths_length hpaths
    rw [hreq, List.length_append, List.length_take, hreq4] at hle
    simp only [maxPathLen] at hle hfits
    omega

def mixedDomain : FtnDomain := ⟨str "fidonet", str "/var/Spool", str "out", 2, none, none⟩

/-- A point's request, in an outbound with a capital letter: `freq` writes to another directory. -/
theorem mixed_case_missed :
    freqPaths (fun _ => true) ⟨str "fidonet", 2, 5047, 13, 1⟩ mixedDomain =
      some (str "/var/spool/out/13b7000d.pnt/00000001.req", str "/var/spool/out/13b7000d.pnt/00000001.clo") ∧
    str "/var/spool/out/13b7000d.pnt/00000001.req" ≠
      ftnaddressToFilename ⟨str "fidonet", 2, 5047, 13, 1⟩ [mixedDomain] ++ str ".req" := by
  decide +kernel

/-- A node of the default zone keeps the case. -/
theorem mixed_case_node :
    str "/var/Spool/out/13b7000d.req" = ftnaddressToFilename ⟨str "fidonet", 2, 5047, 13, 0⟩
    [mixedDomain] ++ str ".req" ∧
    str "/var/Spool/out/13b7000d.clo" = ftnaddressToFilename ⟨str "fidonet", 2, 5047, 13, 0⟩
    [mixedDomain] ++ str ".clo" := by
  have hpaths : freqPaths (fun _ => true) ⟨str "fidonet", 2, 5047, 13, 0⟩ mixedDomain =
      some (str "/var/Spool/out/13b7000d.req", str "/var/Spool/out/13b7000d.clo") := by decide +kernel
  exact (freq_names_agree rfl hpaths).mpr ⟨by decide +kernel, fun h => absurd h (by decide)⟩

end Binkd
