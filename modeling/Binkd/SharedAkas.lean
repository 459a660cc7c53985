import Binkd.Calling
import Binkd.OptionLines
import Binkd.SourceAddress
import Binkd.Words

/-!
# Shared addresses in the list of the remote (`add_shared_akas`)

The words of the remote's list that denote a shared address are blanked in the text
itself, the shared addresses for the other words are added behind it, and `ADR` reads
the text again.  `Clean` is the condition under which the text says the same in both
readings.
-/

namespace Binkd

variable {q q1 q' qe : Bool} {src rest raw X Y R P tail gap : List Byte} {v w : Str} {ws kept : List Str} {c : Byte}
  {fuel : ℕ} {config : BinkdConfig} {env : Env} {fa : FtnAddr} {s : State} {buf : List Byte}

/-! ### Words for shared addresses -/

/-- A word denotes a shared address, with the default domain where it names none. -/
def Shared (config : BinkdConfig) (w : Str) : Prop :=
    ∃ a ∈ akaOf config w, sharesOf a config.shares = none

/-- The shared addresses to be added for a word. -/
def sharesFor (config : BinkdConfig) (w : Str) : List FtnAddr :=
  match akaOf config w with
  | none => []
  | some a => sharesBefore a config.shares

/-- The address that `add_shared_akas` sees in a word: one that is spelled with its domain. -/
def spelled (config : BinkdConfig) (w : Str) : Option FtnAddr :=
    (parseFtnaddress w config.pDomains).filter (·.is5D)

theorem akaOf_spelled (h : spelled config w = some fa) : akaOf config w = some fa := by
  obtain ⟨hparse, h5⟩ := Option.filter_eq_some_iff.mp h
  have h5 : fa.is4D = true ∧ fa.domain ≠ [] := by simpa [FtnAddr.is5D] using h5
  unfold akaOf
  rw [hparse, Option.filter_some, if_pos h5.1]
  simp [h5.2]

/-- The condition on the words of a text, where the text before has become `P` and is read up to
there: a word that has to do with a shared address is spelled with its domain, and one that denotes
a shared address stands in the text as it reads and does not occur in the text before. -/
inductive Clean (config : BinkdConfig) (tail : List Byte) : Str → Bool → Str → List Str → Bool → Prop
  | done {P gap : Str} {q : Bool} (hgap : ∀ c ∈ gap, defFldsep.contains c = true) :
  Clean config tail P q gap [] q
  | keep {P gap raw R v : Str} {q q1 qe : Bool} {ws : List Str} (hgap : ∀ c ∈ gap, defFldsep.contains c = true)
      (hraw : Begins raw) (hfield : Field q (raw ++ (R ++ 0 :: tail)) v q1 (R ++ 0 :: tail))
      (hshared : ¬ Shared config (cstr v)) (hspelled : sharesFor config (cstr v) ≠ [] → (spelled config (cstr v)).isSome)
      (h : Clean config tail (P ++ gap ++ raw) q1 R ws qe) :
      Clean config tail P q (gap ++ raw ++ R) (cstr v :: ws) qe
  | drop {P gap w R : Str} {q qe : Bool} {ws : List Str} (hgap : ∀ c ∈ gap, defFldsep.contains c = true)
      (hw : Begins w) (h0 : 0 ∉ w) (hfield : Field q (w ++ (R ++ 0 :: tail)) w q (R ++ 0 :: tail))
      (hshared : Shared config w) (hspelled : (spelled config w).isSome)
      (hfirst : ∀ n < (P ++ gap).length, ¬ w <+: (P ++ gap ++ w ++ R).drop n)
      (h : Clean config tail (P ++ gap ++ List.replicate w.length 32) q R ws qe) :
      Clean config tail P q (gap ++ w ++ R) (w :: ws) qe

/-- The words of the text. -/
theorem Clean.fields (h : Clean config tail P q R ws qe) : Fields q (R ++ 0 :: tail) ws qe := by
  induction h with
  | done hgap => exact Fields.skips hgap .done
  | keep hgap hraw hfield hshared hspelled h ih =>
    rw [List.append_assoc, List.append_assoc]
    exact (ih.cons hraw hfield (by simp)).skips hgap
  | @drop P gap w R q qe ws hgap hw h0 hfield hshared hspelled hfirst h ih =>
    have hcstr : cstr w = w := cstr_eq_self fun c hc => fun heq => h0 (heq ▸ hc)
    have hnext := ih.cons hw hfield (by simp)
    rw [hcstr] at hnext
    rw [List.append_assoc, List.append_assoc]
    exact hnext.skips hgap

theorem Stop.append (h : Stop q (Y ++ X)) (hY : Y ≠ []) (Z : List Byte) : Stop q (Y ++ Z) := by
  obtain ⟨c, Y, rfl⟩ := List.exists_cons_of_ne_nil hY
  obtain ⟨c', r, hcons, hends⟩ := h
  obtain ⟨rfl, -⟩ := List.cons.inj hcons
  exact ⟨_, _, rfl, hends⟩

theorem Begins.not_stop (h : Begins raw) : ¬ Stop q (raw ++ X) := by
  obtain ⟨c, r, rfl, hc, h0⟩ := h
  rintro ⟨c', r', hcons, hends⟩
  obtain ⟨rfl, -⟩ := List.cons.inj hcons
  exact absurd (hends.of_sep h0) (by rw [hc]; decide)

theorem blankWord_first {pre post : Str} (hw : w ≠ []) (hfirst : ∀ n < pre.length, ¬ w <+: (pre ++ w ++ post).drop n) :
    blankWord w (pre ++ w ++ post) = some (pre ++ List.replicate w.length 32 ++ post) := by
  induction pre with
  | nil =>
    obtain ⟨c, w, rfl⟩ := List.exists_cons_of_ne_nil hw
    rw [List.nil_append, List.cons_append, blankWord, if_pos (by simp)]
    simp
  | cons p pre ih =>
    have hnext := ih fun n hn => hfirst (n + 1) (Nat.succ_lt_succ hn)
    have hhere : ¬ w.isPrefixOf (p :: (pre ++ w ++ post)) = true := fun h =>
      hfirst 0 (Nat.succ_pos _) (List.isPrefixOf_iff_prefix.mp h)
    rw [List.cons_append, List.cons_append, blankWord, if_neg hhere, hnext]
    rfl

/-- What is added to the text to be added. -/
def addText (ad : Option Str) (added : List FtnAddr) : Option Str :=
  if added = [] then ad else some (ad.getD [] ++ added.flatMap fun a => [32] ++ ftnaddressToStr a)

theorem addText_append (ad : Option Str) (l l' : List FtnAddr) :
    addText (addText ad l) l' = addText ad (l ++ l') := by
  unfold addText
  by_cases hl : l = []
  · simp [hl]
  · by_cases hl' : l' = []
    · simp [hl']
    · simp [hl, hl']

/-- The text up to here is read as the words that are kept, whatever follows. -/
def ReadsAs (P : Str) (q : Bool) (kept : List Str) : Prop :=
  ∀ X vs qe, P = [] ∨ Stop q X → Fields q X vs qe → Fields false (P ++ X) (kept ++ vs) qe

theorem ReadsAs.snoc (h : ReadsAs P q kept) (hstop : P = [] ∨ Stop q (gap ++ raw ++ (R ++ 0 :: tail)))
    (hgap : ∀ c ∈ gap, defFldsep.contains c = true) (hraw : Begins raw)
    (hfield : Field q (raw ++ (R ++ 0 :: tail)) v q1 (R ++ 0 :: tail)) :
    ReadsAs (P ++ gap ++ raw) q1 (kept ++ [cstr v]) := by
  have hne : raw ≠ [] := by
    obtain ⟨c, r, rfl, -⟩ := hraw
    exact List.cons_ne_nil c r
  intro X vs qe hX hfields
  have hX : Stop q1 X := hX.resolve_left (by simp [hne])
  have hXne : X ≠ [] := by
    obtain ⟨c, r, rfl, -⟩ := hX
    exact List.cons_ne_nil c r
  have hsubst := hfield.subst rfl hX (by simp)
  have hfrom := (hfields.cons hraw hsubst hXne).skips hgap
  have hkept := h (gap ++ raw ++ X) (cstr v :: vs) qe (hstop.imp_right fun hs => hs.append (by simp [hne]) X)
    (by rwa [List.append_assoc])
  simpa using hkept

theorem ReadsAs.blank (h : ReadsAs P q kept) (hstop : P = [] ∨ Stop q (gap ++ w ++ (R ++ 0 :: tail)))
    (hgap : ∀ c ∈ gap, defFldsep.contains c = true) (hw : Begins w) :
    ReadsAs (P ++ gap ++ List.replicate w.length 32) q kept := by
  intro X vs qe hX hfields
  have hblank : ∀ c ∈ List.replicate w.length (32 : Byte), defFldsep.contains c = true := by
    intro c hc
    rw [List.eq_of_mem_replicate hc]
    decide
  have hkept := h (gap ++ (List.replicate w.length 32 ++ X)) vs qe ?_ ((hfields.skips hblank).skips hgap)
  · simpa using hkept
  · refine hstop.imp_right fun hs => ?_
    rw [List.append_assoc] at hs
    cases gap with
    | nil => exact absurd hs hw.not_stop
    | cons c gap => exact hs.append (List.cons_ne_nil c gap) _

instance (config : BinkdConfig) (w : Str) : Decidable (Shared config w) :=
  inferInstanceAs (Decidable (∃ a ∈ akaOf config w, _))

theorem sharesOf_some (h : ¬ Shared config w) (ha : akaOf config w = some fa) :
    sharesOf fa config.shares ≠ none :=
  fun hnone => h ⟨fa, ha, hnone⟩

/-- The word that is looked at next. -/
theorem Clean.word (h : Clean config tail P q R ws qe) (hkept : ReadsAs P q kept)
    (hstop : P = [] ∨ Stop q (R ++ 0 :: tail)) :
    getwordx (P ++ R ++ 0 :: tail) (kept.length + 1) {} = ws[0]? := by
  have hget := (hkept _ _ _ hstop h.fields).get kept.length
  rw [List.getElem?_append_right (Nat.le_refl _), Nat.sub_self] at hget
  rw [List.append_assoc]
  exact hget

/-- A word that denotes no shared address stays. -/
theorem addSharedAkas_keep {i : ℕ} {s : Str} {ad : Option Str} (hword : getwordx (s ++ 0 :: tail) i {} = some w)
    (hshared : ¬ Shared config w) (hspelled : sharesFor config w ≠ [] → (spelled config w).isSome) :
    addSharedAkas config tail (fuel + 1) i s ad =
      addSharedAkas config tail fuel (i + 1) s (addText ad (sharesFor config w)) := by
  rw [addSharedAkas, hword]
  dsimp only
  cases hsp : (parseFtnaddress w config.pDomains).filter (·.is5D) with
  | none =>
    have hnone : sharesFor config w = [] := by
      by_contra hne
      have h := hspelled hne
      rw [spelled, hsp] at h
      contradiction
    rw [hnone]
    rfl
  | some fa =>
    have haka : akaOf config w = some fa := akaOf_spelled hsp
    obtain ⟨l, hl⟩ := Option.ne_none_iff_exists'.mp (sharesOf_some hshared haka)
    dsimp only
    rw [hl, sharesFor, haka]
    rfl

/-- A word that denotes one is blanked where it occurs first. -/
theorem addSharedAkas_drop {i : ℕ} {s s1 : Str} {ad : Option Str} (hword : getwordx (s ++ 0 :: tail) i {} = some w)
    (hshared : Shared config w) (hspelled : (spelled config w).isSome) (hblank : blankWord w s = some s1) :
    addSharedAkas config tail (fuel + 1) i s ad =
      addSharedAkas config tail fuel i s1 (addText ad (sharesFor config w)) := by
  obtain ⟨fa, hsp⟩ := Option.isSome_iff_exists.mp hspelled
  have haka : akaOf config w = some fa := akaOf_spelled hsp
  obtain ⟨a, ha, hnone⟩ := hshared
  obtain rfl : a = fa := Option.some.inj ((Option.mem_def.mp ha).symm.trans haka)
  rw [spelled] at hsp
  rw [addSharedAkas, hword]
  dsimp only
  rw [hsp]
  dsimp only
  rw [hnone, hblank, sharesFor, haka]
  rfl

/-- The words that denote shared addresses are blanked, and what is to be added is collected. -/
theorem Clean.addSharedAkas (h : Clean config tail P q R ws qe) (hkept : ReadsAs P q kept)
    (hstop : P = [] ∨ Stop q (R ++ 0 :: tail)) (hfuel : ws.length < fuel) (ad : Option Str) :
    ∃ s', addSharedAkas config tail fuel (kept.length + 1) (P ++ R) ad =
        (s', addText ad (ws.flatMap (sharesFor config))) ∧
      ReadsAs s' qe (kept ++ ws.filter fun w => ¬ Shared config w) := by
  induction h generalizing kept fuel ad with
  | @done P gap q hgap =>
    obtain ⟨fuel, rfl⟩ : ∃ n, fuel = n + 1 := ⟨fuel - 1, by omega⟩
    have hdone : Clean config tail P q gap [] q := .done hgap
    have hword := hdone.word hkept hstop
    refine ⟨P ++ gap, ?_, ?_⟩
    · rw [Binkd.addSharedAkas, hword]
      rfl
    · intro X vs qe' hX hfields
      rw [List.filter_nil, List.append_nil, List.append_assoc]
      refine hkept _ _ _ ?_ (hfields.skips hgap)
      cases gap with
      | nil => simpa using hX
      | cons c gap => exact hstop.imp_right fun hs => hs.append (List.cons_ne_nil c gap) X
  | @keep P gap raw R v q q1 qe ws hgap hraw hfield hshared hspelled h ih =>
    obtain ⟨fuel, rfl⟩ : ∃ n, fuel = n + 1 := ⟨fuel - 1, by omega⟩
    have hword := (Clean.keep hgap hraw hfield hshared hspelled h).word hkept hstop
    have hstop' : Stop q1 (R ++ 0 :: tail) := hfield.behind.2.resolve_left (by simp)
    have hkept' : ReadsAs (P ++ gap ++ raw) q1 (kept ++ [cstr v]) :=
      hkept.snoc (by rwa [← List.append_assoc]) hgap hraw hfield
    have htext : P ++ (gap ++ raw ++ R) = P ++ gap ++ raw ++ R := by simp only [List.append_assoc]
    obtain ⟨s', heq, hs'⟩ := ih hkept' (.inr hstop') (Nat.lt_of_succ_lt_succ hfuel)
      (addText ad (sharesFor config (cstr v)))
    refine ⟨s', ?_, ?_⟩
    · rw [addSharedAkas_keep hword hshared hspelled, htext, List.flatMap_cons, ← addText_append]
      rwa [List.length_append] at heq
    · rw [List.filter_cons_of_pos (by simpa using hshared)]
      simpa using hs'
  | @drop P gap w R q qe ws hgap hw h0 hfield hshared hspelled hfirst h ih =>
    obtain ⟨fuel, rfl⟩ : ∃ n, fuel = n + 1 := ⟨fuel - 1, by omega⟩
    have hword := (Clean.drop hgap hw h0 hfield hshared hspelled hfirst h).word hkept hstop
    have hstop' : Stop q (R ++ 0 :: tail) := hfield.behind.2.resolve_left (by simp)
    have hkept' : ReadsAs (P ++ gap ++ List.replicate w.length 32) q kept :=
      hkept.blank (by rwa [← List.append_assoc]) hgap hw
    have hne : w ≠ [] := by
      obtain ⟨c, r, rfl, -⟩ := hw
      exact List.cons_ne_nil c r
    have htext : P ++ (gap ++ w ++ R) = P ++ gap ++ w ++ R := by simp only [List.append_assoc]
    have hblank := blankWord_first hne hfirst
    rw [← htext] at hblank
    obtain ⟨s', heq, hs'⟩ := ih hkept' (.inr hstop') (Nat.lt_of_succ_lt_succ hfuel)
      (addText ad (sharesFor config w))
    refine ⟨s', ?_, ?_⟩
    · rw [addSharedAkas_drop hword hshared hspelled hblank, List.flatMap_cons, ← addText_append]
      exact heq
    · rw [List.filter_cons_of_neg (by simpa using hshared)]
      exact hs'

/-! ### The list that is processed -/

/-- The words that the remote has presented. -/
def presentedWords (env : Env) (buf : List Byte) : List Str := getwords (cstr buf ++ 0 :: env.tail) {}

/-- The list is that of the words that denote no shared address, and the shared addresses to be
added; what is accepted is one of these. -/
structure SharesApart (config : BinkdConfig) (env : Env) (buf : List Byte) (s : State) : Prop where
  words : adrWords config env buf = ((presentedWords env buf).filter fun w => ¬ Shared config w) ++
    ((presentedWords env buf).flatMap (sharesFor config)).map ftnaddressToStr
  own : ∀ a ∈ (ADR config env buf s).1.login.fa, a ∈ s.login.fa ∨
    (∃ w ∈ presentedWords env buf, ¬ Shared config w ∧ akaOf config w = some a) ∨
    ∃ x ∈ (presentedWords env buf).flatMap (sharesFor config), akaOf config (ftnaddressToStr x) = some a

theorem Clean.length_le (h : Clean config tail P q R ws qe) : ws.length ≤ R.length := by
  have hpos : ∀ {raw : List Byte}, Begins raw → 0 < raw.length := by
    rintro _ ⟨c, r, rfl, -⟩
    exact Nat.succ_pos _
  induction h with
  | done hgap => exact Nat.zero_le _
  | keep hgap hraw hfield hshared hspelled h ih =>
    have := hpos hraw
    simp only [List.length_cons, List.length_append]
    omega
  | drop hgap hw h0 hfield hshared hspelled hfirst h ih =>
    have := hpos hw
    simp only [List.length_cons, List.length_append]
    omega

theorem addText_spaced (added : List FtnAddr) : (addText none added).getD [] = spaced (added.map ftnaddressToStr) := by
  unfold addText spaced
  by_cases h : added = []
  · simp [h]
  · simp [h, List.flatMap_map]

theorem shares_nil (h : config.shares = []) (w : Str) : ¬ Shared config w ∧ sharesFor config w = [] := by
  constructor
  · rintro ⟨a, -, hnone⟩
    rw [h] at hnone
    contradiction
  · unfold sharesFor
    rw [h]
    split <;> rfl

/-- The list that `ADR` goes through. -/
theorem adrWords_clean (hclean : Clean config env.tail [] false (cstr buf) ws qe)
    (hclosed : ws.flatMap (sharesFor config) ≠ [] → qe = false)
    (hplain : ∀ x ∈ ws.flatMap (sharesFor config), Unquoted (ftnaddressToStr x)) :
    presentedWords env buf = ws ∧ adrWords config env buf = (ws.filter fun w => ¬ Shared config w) ++
      (ws.flatMap (sharesFor config)).map ftnaddressToStr := by
  have hpresented : presentedWords env buf = ws := hclean.fields.getwords
  refine ⟨hpresented, ?_⟩
  unfold adrWords
  dsimp only
  by_cases hshares : config.shares = []
  · have hall : (ws.filter fun w => ¬ Shared config w) = ws :=
      List.filter_eq_self.mpr fun w _ => by simpa using (shares_nil hshares w).1
    have hnone : ws.flatMap (sharesFor config) = [] :=
      List.flatMap_eq_nil_iff.mpr fun w _ => (shares_nil hshares w).2
    rw [if_pos hshares, hall, hnone]
    simpa [presentedWords] using hpresented
  · have hlen := hclean.length_le
    have hstart : ReadsAs [] false [] := fun X vs qe _ h => h
    obtain ⟨s', heq, hs'⟩ := hclean.addSharedAkas hstart (.inl rfl) (by omega : ws.length < 2 * (cstr buf).length + 2) none
    rw [if_neg hshares]
    rw [List.nil_append, List.length_nil, Nat.zero_add] at heq
    rw [heq]
    dsimp only
    rw [addText_spaced, List.append_assoc]
    refine Fields.getwords (q := qe) ?_
    rw [List.nil_append] at hs'
    by_cases hadded : ws.flatMap (sharesFor config) = []
    · rw [hadded]
      exact hs' _ _ _ (.inr ⟨0, _, rfl, .inl rfl⟩) .done
    · obtain rfl := hclosed hadded
      refine hs' _ _ _ (.inr ?_) (Fields.plain fun w hw => ?_)
      · obtain ⟨x, l, hx⟩ := List.exists_cons_of_ne_nil hadded
        rw [hx]
        exact ⟨32, _, rfl, .inr (.inr (.inr ⟨rfl, by decide⟩))⟩
      · obtain ⟨x, hx, rfl⟩ := List.mem_map.mp hw
        exact hplain x hx

/-- What `ADR` accepts are addresses of the words that it goes through. -/
theorem ADR_accepts (config : BinkdConfig) (env : Env) (buf : List Byte) (s : State) :
    ∀ a ∈ (ADR config env buf s).1.login.fa, a ∈ s.login.fa ∨
    ∃ w ∈ adrWords config env buf, akaOf config w = some a := by
  have hexp : (adrExpect s).login.fa = s.login.fa := by
    unfold adrExpect
    split <;> rfl
  have hrule := @adrLoop_moves config env (fun done b _ => ∀ a ∈ b.login.fa, a ∈ s.login.fa ∨
    ∃ w ∈ done, akaOf config w = some a)
    (adrWords config env buf) (adrExpect s) {} (by rw [hexp]; exact fun a ha => .inl ha) ?_ ?_
  · unfold ADR
    split
    · exact fun a ha => .inl ha
    · next ws hws =>
      split
      · next s1 heq =>
        obtain ⟨done, rest, -, hsplit, hdone⟩ := hrule.2 s1 heq
        intro a ha
        refine (hdone a ha).imp_right fun ⟨w, hw, haka⟩ => ⟨w, ?_, haka⟩
        rw [hsplit]
        exact List.mem_append_left _ hw
      · next s1 l1 heq =>
        rw [(adrEnd_lists config env s1 l1).1]
        exact hrule.1 s1 l1 heq
  · intro done w b lb b' lb' _ _ hmove hb a ha
    have hmore : ∀ a ∈ b.login.fa, a ∈ s.login.fa ∨ ∃ w' ∈ done ++ [w], akaOf config w' = some a :=
        fun a ha =>
      (hb a ha).imp_right fun ⟨w', hw', haka⟩ => ⟨w', List.mem_append_left _ hw', haka⟩
    cases hmove with
    | dropped hfa => exact hmore a (hfa ▸ ha)
    | busy x hw _ hfa =>
      rw [hfa] at ha
      rcases List.mem_append.mp ha with ha | ha
      · exact hmore a ha
      · obtain rfl := List.mem_singleton.mp ha
        exact .inr ⟨w, by simp, hw⟩
    | active x disk hw _ hfa =>
      rw [hfa] at ha
      rcases List.mem_append.mp ha with ha | ha
      · exact hmore a (List.mem_of_mem_take ha)
      · rcases List.mem_cons.mp ha with rfl | ha
        · exact .inr ⟨w, by simp, hw⟩
        · exact hmore a (List.mem_of_mem_drop ha)
  · intro done b lb b' _ hstill hb a ha
    exact hb a (hstill.fa ▸ ha)

/-- **Shared addresses**: where the condition holds, the words for shared addresses are taken out of
the list, the shared addresses of the others are added to it, and none of the remote's own is
accepted that is shared. -/
theorem shares_apart (s : State) (hclean : Clean config env.tail [] false (cstr buf) ws qe)
    (hclosed : ws.flatMap (sharesFor config) ≠ [] → qe = false)
    (hplain : ∀ x ∈ ws.flatMap (sharesFor config), Unquoted (ftnaddressToStr x)) :
    SharesApart config env buf s := by
  obtain ⟨hpresented, hwords⟩ := adrWords_clean hclean hclosed hplain
  rw [← hpresented] at hwords
  refine ⟨hwords, fun a ha => ?_⟩
  refine (ADR_accepts config env buf s a ha).imp_right fun ⟨w, hw, haka⟩ => ?_
  rw [hwords] at hw
  rcases List.mem_append.mp hw with hw | hw
  · obtain ⟨hmem, hshared⟩ := List.mem_filter.mp hw
    exact .inl ⟨w, hmem, by simpa using hshared, haka⟩
  · obtain ⟨x, hx, rfl⟩ := List.mem_map.mp hw
    exact .inr ⟨x, hx, haka⟩

/-! ### A share of two addresses -/

/-- The node 1 takes part in the shared address 999. -/
def shareConfig : BinkdConfig := { fidoConfig [] with shares := [⟨aka 999, [aka 1]⟩] }

/-- The start of a session that answers. -/
def shareStart : State := start shareConfig {} ∅ [] [] none none

/-- The shared address without its domain is accepted. -/
theorem share_accepted : ¬ SharesApart shareConfig {} (str "2:5020/999") shareStart ∧
    aka 999 ∈ (ADR shareConfig {} (str "2:5020/999") shareStart).1.login.fa := by
  refine ⟨fun h => ?_, by decide +kernel⟩
  have hwords := h.words
  revert hwords
  decide +kernel

def sharedWord : Str := str "2:5020/999@fidonet"

def memberWord : Str := str "2:5020/1@fidonet"

/-- With its domain it is taken out of the list, and it is added for the other address. -/
theorem shares_apart_member : SharesApart shareConfig {} (sharedWord ++ 32 :: memberWord) shareStart := by
  have htext : cstr (sharedWord ++ 32 :: memberWord) = [] ++ sharedWord ++ ([32] ++ memberWord ++ []) := by
    decide +kernel
  have hshared : Unquoted sharedWord := by decide +kernel
  have hmember : Unquoted memberWord := by decide +kernel
  have hclean : Clean shareConfig ({} : Env).tail [] false (cstr (sharedWord ++ 32 :: memberWord))
      [sharedWord, cstr memberWord] false := by
    rw [htext]
    refine .drop (by simp) hshared.begins (by decide +kernel) ?_ (by decide +kernel) (by decide +kernel) (by simp) ?_
    · exact Field.plain hshared.2 (.inr rfl)
    · have hgap : ∀ c ∈ [(32 : Byte)], defFldsep.contains c = true := by
        intro c hc
        rw [List.mem_singleton.mp hc]
        decide
      refine .keep hgap hmember.begins ?_ (by decide +kernel) (by decide +kernel) (.done (by simp))
      exact Field.plain hmember.2 (.inl rfl)
  exact shares_apart shareStart hclean (by simp) (by decide +kernel)

end Binkd
