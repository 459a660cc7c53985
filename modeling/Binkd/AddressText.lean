import Binkd.AddressFormat
import Binkd.Identity
import Binkd.QSort
import Binkd.Session

/-!
# Address texts (`parse_ftnaddress`, `xftnaddress_to_str`, `read_domain_info`)

A printed address has the tokens of its parts, so it is read back part by part (`parse_back`); only
the domain depends on the table.  `read_domain_info` accepts any name for a domain and an alias for
any domain that is there, an alias among them.  The parser follows one alias, so the name that
it leaves in the address may be an alias again, or a name that it does not read
(`address_round_trip`).
-/

namespace Binkd

variable {t t' pDomains : List FtnDomain} {d : FtnDomain} {v w s : Str} {a : FtnAddr} {k : ℕ} {ts : List Token}

/-! ### The domain table -/

/-- `check_dir_path`: the slashes at the end go. -/
def checkDirPath (s : Str) : Str := (s.reverse.dropWhile fun c => c = 47 ∨ c = 92).reverse

/-- `read_domain_info`: the table with the domain of one line, or `none` for an error. -/
def readDomainInfo (pDomains : List FtnDomain) (words : List Str) : Option (List FtnDomain) :=
  match words with
  | name :: second :: third :: rest =>
    if 1 < rest.length then none
    else if (getDomainInfo name pDomains).isSome then none
    else if stricmp second (str "alias-for") = 0 then
      match getDomainInfo third pDomains with
      | none => none
      | some d =>
        if rest ≠ [] then none
        else some (pDomains ++ [⟨name.take maxDomain, [], [], 0, some d.name, none⟩])
    else
      let behind := third.dropWhile isdigit
      if behind ≠ [] ∧ !isspace (behind.headD 0) ∨ atoi third ≤ 0 then none
      else
        let (path, dir) := match lastSlash (checkDirPath second) with
          | none => (str ".", checkDirPath second)
          | some (path, dir) => (checkDirPath path, dir)
        if dir.contains 46 then none
        else some (pDomains ++ [⟨name.take maxDomain, path, dir, Int32.ofInt (atoi third), none, rest.head?⟩])
  | _ => none

/-- A table that the reader of the configuration has accepted. -/
inductive DomainTable : List FtnDomain → Prop
  | empty : DomainTable []
  | line {t t' : List FtnDomain} (words : List Str) (hwords : ∀ w ∈ words, 0 ∉ w) (h : DomainTable t)
      (hread : readDomainInfo t words = some t') : DomainTable t'

/-- A line adds a domain whose name is not there, and an alias is for one that is. -/
theorem readDomainInfo_adds {words : List Str} (h : readDomainInfo t words = some t') (hwords : ∀ w ∈ words, 0 ∉ w) :
    ∃ (name : Str) (d : FtnDomain), t' = t ++ [d] ∧ 0 ∉ name ∧ d.name = name.take maxDomain ∧
      (d.alias4 = none ∨ ∃ w e, 0 ∉ w ∧ getDomainInfo w t = some e ∧ d.alias4 = some e.name) := by
  unfold readDomainInfo at h
  split at h
  · next name second third rest =>
    have hname : 0 ∉ name := hwords name (by simp)
    have hthird : 0 ∉ third := hwords third (by simp)
    dsimp only at h
    split_ifs at h with h1 h2 h3 h4
    · split at h <;> contradiction
    · cases he : getDomainInfo third t with
      | none => simp [he] at h
      | some e =>
        rw [he] at h
        exact ⟨name, _, (Option.some.inj h).symm, hname, rfl, .inr ⟨third, e, hthird, he, rfl⟩⟩
    · exact ⟨name, _, (Option.some.inj h).symm, hname, rfl, .inl rfl⟩
  · contradiction

/-- What `STRICMP` compares. -/
def lower (s : Str) : Str := s.map tolower

/-- A name is looked up by its letters. -/
theorem getDomainInfo_congr (h : stricmp v w = 0) (hv : 0 ∉ v) (hw : 0 ∉ w) (ht : ∀ d ∈ t, 0 ∉ d.name) :
    getDomainInfo v t = getDomainInfo w t := by
  have hvw := (stricmp_eq_zero hv hw).mp h
  unfold getDomainInfo
  induction t with
  | nil => rfl
  | cons d t ih =>
    have hd := ht d List.mem_cons_self
    have hsame : (stricmp d.name v = 0) = (stricmp d.name w = 0) := by
      rw [stricmp_eq_zero hd hv, stricmp_eq_zero hd hw, hvw]
    simp only [List.find?_cons, hsame]
    rw [ih fun d' h => ht d' (List.mem_cons_of_mem d h)]

theorem getDomainInfo_append (w : Str) (t t' : List FtnDomain) :
    getDomainInfo w (t ++ t') = (getDomainInfo w t).or (getDomainInfo w t') := by
  simp [getDomainInfo, List.find?_append]

/-- What holds of a table that was accepted: an alias is for the name of a domain that is found under it,
and a name that is found is not an alias for itself. -/
structure TableInv (t : List FtnDomain) : Prop where
  nul : ∀ d ∈ t, 0 ∉ d.name
  length : ∀ d ∈ t, d.name.length ≤ maxDomain
  target : ∀ d ∈ t, ∀ a ∈ d.alias4, ∃ e, getDomainInfo a t = some e ∧ e.name = a
  other : ∀ w, 0 ∉ w → ∀ d ∈ getDomainInfo w t, ∀ a ∈ d.alias4, stricmp a w ≠ 0

theorem DomainTable.inv (h : DomainTable t) : TableInv t := by
  induction h with
  | empty =>
    refine ⟨?_, ?_, ?_, ?_⟩
    · simp
    · simp
    · simp
    · simp [getDomainInfo]
  | @line t t' words hwords _ hread ih =>
    obtain ⟨name, d, rfl, hname, hdname, halias⟩ := readDomainInfo_adds hread hwords
    have hdnul : 0 ∉ d.name := by
      rw [hdname]
      exact fun h => hname (List.mem_of_mem_take h)
    have hmem : ∀ {w e}, getDomainInfo w t = some e → e ∈ t ∧ stricmp e.name w = 0 := by
      intro w e he
      exact ⟨List.mem_of_find?_eq_some he, of_decide_eq_true (List.find?_some (p := fun d : FtnDomain =>
        decide (stricmp d.name w = 0)) he)⟩
    -- an alias of the new line is for a domain of the table before
    have hnew : ∀ a ∈ d.alias4, ∃ e, getDomainInfo a t = some e ∧ e.name = a := by
      intro a ha
      rcases halias with hnone | ⟨w, e, hw, he, hsome⟩
      · rw [hnone] at ha
        contradiction
      · rw [hsome] at ha
        obtain rfl := Option.some.inj ha
        obtain ⟨hemem, hew⟩ := hmem he
        exact ⟨e, (getDomainInfo_congr hew (ih.nul e hemem) hw ih.nul).trans he, rfl⟩
    have hfound : ∀ {a e}, getDomainInfo a t = some e → getDomainInfo a (t ++ [d]) = some e := by
      intro a e he
      rw [getDomainInfo_append, he]
      rfl
    refine ⟨?_, ?_, ?_, ?_⟩
    · intro x hx
      rcases List.mem_append.mp hx with hx | hx
      · exact ih.nul x hx
      · rwa [List.mem_singleton.mp hx]
    · intro x hx
      rcases List.mem_append.mp hx with hx | hx
      · exact ih.length x hx
      · rw [List.mem_singleton.mp hx, hdname]
        exact List.length_take_le _ _
    · intro x hx a ha
      rcases List.mem_append.mp hx with hx | hx
      · obtain ⟨e, he, hname⟩ := ih.target x hx a ha
        exact ⟨e, hfound he, hname⟩
      · rw [List.mem_singleton.mp hx] at ha
        obtain ⟨e, he, hname⟩ := hnew a ha
        exact ⟨e, hfound he, hname⟩
    · intro w hw x hx a ha
      rw [getDomainInfo_append] at hx
      cases hold : getDomainInfo w t with
      | some e =>
        rw [hold] at hx
        obtain rfl := Option.some.inj hx
        exact ih.other w hw e hold a ha
      | none =>
        rw [hold, Option.none_or] at hx
        have hxd : x = d := List.mem_singleton.mp (List.mem_of_find?_eq_some hx)
        rw [hxd] at ha
        obtain ⟨e, he, hename⟩ := hnew a ha
        obtain ⟨hemem, -⟩ := hmem he
        intro hsame
        have hanul : 0 ∉ a := hename ▸ ih.nul e hemem
        rw [getDomainInfo_congr hsame hanul hw ih.nul, hold] at he
        contradiction

/-- The name that `parse_ftnaddress` takes for the name of a domain. -/
def domainNamed (pDomains : List FtnDomain) (w : Str) : Str :=
  match getDomainInfo w pDomains with
  | some d => d.alias4.getD d.name
  | none => w

/-! ### The tokens of a text -/

/-- A byte of a word of `gettoken`. -/
def isWordByte (c : Byte) : Bool := c = 46 ∨ c = 45 ∨ c = 95 ∨ isalnum c

/-- A text that `gettoken` reads as one word. -/
structure DomainWord (w : Str) : Prop where
  head : isalpha (w.headD 0) = true
  bytes : ∀ c ∈ w, isWordByte c = true
  length : w.length ≤ maxDomain

instance (w : Str) : Decidable (DomainWord w) :=
  decidable_of_iff (isalpha (w.headD 0) = true ∧ w.all isWordByte = true ∧ w.length ≤ maxDomain)
    ⟨fun h => ⟨h.1, List.all_eq_true.mp h.2.1, h.2.2⟩, fun h => ⟨h.head, List.all_eq_true.mpr h.bytes, h.length⟩⟩

theorem DomainWord.ne_nil (h : DomainWord w) : w ≠ [] := by
  rintro rfl
  exact absurd h.head (by decide)

theorem alpha_byte {c : Byte} (h : isalpha c = true) : ¬ (c = 58 ∨ c = 47 ∨ c = 46 ∨ c = 64) ∧
    isdigit c = false ∧
    isWordByte c = true ∧ c ≠ 0 :=
  forall_byte (p := fun c => isalpha c = true → ¬ (c = 58 ∨ c = 47 ∨ c = 46 ∨ c = 64) ∧
    isdigit c = false ∧
    isWordByte c = true ∧ c ≠ 0) (by decide +kernel) c h

theorem digit_byte {c : Byte} (h : isdigit c = true) : ¬ (c = 58 ∨ c = 47 ∨ c = 46 ∨ c = 64) ∧ c ≠ 0 :=
  forall_byte (p := fun c => isdigit c = true → ¬ (c = 58 ∨ c = 47 ∨ c = 46 ∨ c = 64) ∧
    c ≠ 0) (by decide +kernel) c h

/-- The kinds of tokens that come from a text. -/
inductive Token.Made : Token → Prop
  | null : Token.Made { n := -1 }
  | sep (c : Byte) (h : c = 58 ∨ c = 47 ∨ c = 46 ∨ c = 64) : Token.Made { c := c }
  | num (n : Int32) : Token.Made { n := n }
  | word (w : Str) (h : DomainWord w) : Token.Made { s := w }

theorem gettoken_made {s r : Str} {k : Token} (h : gettoken s = some (k, r)) : k.Made := by
  unfold gettoken at h
  split at h
  · obtain ⟨rfl, -⟩ := Prod.mk.inj (Option.some.inj h)
    exact .null
  · next c rest =>
    split_ifs at h with hsep hdigit halpha
    · obtain ⟨rfl, -⟩ := Prod.mk.inj (Option.some.inj h)
      exact .sep c hsep
    · obtain ⟨rfl, -⟩ := Prod.mk.inj (Option.some.inj h)
      exact .num _
    · obtain ⟨rfl, -⟩ := Prod.mk.inj (Option.some.inj h)
      refine .word _ ⟨?_, fun x hx => ?_, List.length_take_le _ _⟩
      · have hc := (alpha_byte halpha).2.2.1
        unfold isWordByte at hc
        rw [List.takeWhile_cons, if_pos hc]
        exact halpha
      · exact List.mem_takeWhile_imp (List.mem_of_mem_take hx)

theorem gettokens_made {n : ℕ} {s : Str} {ts : List Token} (h : gettokens n s = some ts) :
    ∀ k ∈ ts, k.Made := by
  induction n generalizing s ts with
  | zero =>
    obtain rfl := Option.some.inj h
    exact fun k hk => absurd hk List.not_mem_nil
  | succ n ih =>
    rw [gettokens] at h
    split at h
    · contradiction
    · next k r hget =>
      obtain ⟨ts', hts', rfl⟩ := Option.map_eq_some_iff.mp h
      intro u hu
      rcases List.mem_cons.mp hu with rfl | hu
      · exact gettoken_made hget
      · exact ih hts' u hu

/-- The text of the token behind the `@` among some tokens. -/
def behindAt (ts : List Token) : Option Str :=
  (((ts.takeWhile fun k => k.type ≠ .null).dropWhile fun k => k.c ≠ 64).drop 1).head?.map (·.s)

/-- The domain that an address text names: the word behind the `@`. -/
def domainWord (s : Str) : Option Str := (gettokens 10 s).bind behindAt

theorem behindAt_skip {k : Token} {ts : List Token} (hk : k.type ≠ .null) (hc : k.c ≠ 64) :
    behindAt (k :: ts) = behindAt ts := by
  simp [behindAt, hk, hc]

theorem behindAt_null {k : Token} {ts : List Token} (hk : k.type = .null) :
    behindAt (k :: ts) = none := by
  simp [behindAt, hk]

theorem behindAt_word {k u : Token} {ts : List Token} (hk : k.type ≠ .null) (hc : k.c = 64) (hu : u.type ≠ .null) :
    behindAt (k :: u :: ts) = some u.s := by
  simp [behindAt, hk, hc, hu]

theorem num_token {k : Token} (hk : k.type = .num) : k.type ≠ .null ∧ k.c = 0 ∧ k.n ≠ -1 := by
  refine ⟨by simp [hk], ?_, ?_⟩
  · unfold Token.type at hk
    split_ifs at hk with h1 h2
    exact not_not.mp h2
  · unfold Token.type at hk
    split_ifs at hk with h1 h2 h3
    exact h3

theorem sep_token {k : Token} (hk : k.c ≠ 0) : k.type ≠ .null := by
  unfold Token.type
  split_ifs <;> simp

/-! ### What is read -/

/-- The parts that are there: a domain needs a zone, a zone a net, a net a node. -/
structure FtnAddr.Formed (a : FtnAddr) : Prop where
  zone : a.domain ≠ [] → a.z ≠ -1
  net : a.z ≠ -1 → a.net ≠ -1
  node : a.net ≠ -1 → a.node ≠ -1
  point : a.p ≠ -1

/-- What has been read of an address: its parts, and the domain from the tokens that are left. -/
structure ReadFrom (pDomains : List FtnDomain) (ts : List Token) (a : FtnAddr) : Prop where
  formed : a.Formed
  domain : a.domain = match behindAt ts with
    | some w => domainNamed pDomains w
    | none => []
  word : ∀ w ∈ behindAt ts, DomainWord w

theorem parseEnd_formed {fa a : FtnAddr} {ts : List Token} (h : parseEnd fa ts = some a) :
    a.Formed ∧ a.domain = fa.domain ∧ (ts.headD {}).type = .null := by
  unfold parseEnd at h
  split_ifs at h with hbad hp
  · obtain rfl := Option.some.inj h
    simp only [ne_eq, not_or, not_not, not_and] at hbad
    obtain ⟨h1, h2, h3, h4, h5⟩ := hbad
    exact ⟨⟨h3, h4, h5, (by decide : (0 : Int32) ≠ -1)⟩, rfl, h1⟩
  · obtain rfl := Option.some.inj h
    simp only [ne_eq, not_or, not_not, not_and] at hbad
    obtain ⟨h1, h2, h3, h4, h5⟩ := hbad
    exact ⟨⟨h3, h4, h5, hp⟩, rfl, h1⟩

theorem Token.Made.word_of_type {k : Token} (h : k.Made) (hk : k.type = .word) : DomainWord k.s := by
  cases h with
  | null => exact absurd hk (by decide)
  | sep c hc =>
    rw [Token.type, if_neg (by simp)] at hk
    split_ifs at hk
  | num n =>
    rw [Token.type, if_neg (by simp)] at hk
    split_ifs at hk
  | word w hw => exact hw

theorem parseDomain_read {fa a : FtnAddr} {ts : List Token} (h : parseDomain pDomains fa ts = some a)
    (hfa : fa.domain = []) (hts : ∀ k ∈ ts, k.Made) : ReadFrom pDomains ts a := by
  have hend : ∀ {ts : List Token}, parseEnd fa ts = some a → ts ≠ [] → ReadFrom pDomains ts a := by
    intro ts hend hne
    obtain ⟨hformed, hdomain, hnull⟩ := parseEnd_formed hend
    obtain ⟨k, rest, rfl⟩ := List.exists_cons_of_ne_nil hne
    have hb : behindAt (k :: rest) = none := behindAt_null hnull
    exact ⟨hformed, by rw [hdomain, hfa, hb], by simp [hb]⟩
  unfold parseDomain at h
  split at h
  · next k u rest =>
    split_ifs at h with hc hu
    · obtain ⟨hformed, hdomain, -⟩ := parseEnd_formed h
      have hu := not_not.mp hu
      have hk : k.type ≠ .null := sep_token (by rw [hc]; decide)
      have hb : behindAt (k :: u :: rest) = some u.s := behindAt_word hk hc (by rw [hu]; decide)
      refine ⟨hformed, ?_, fun w hw => ?_⟩
      · rw [hdomain, hb]
        rfl
      · rw [hb] at hw
        obtain rfl := Option.some.inj hw
        exact (hts u (by simp)).word_of_type hu
    · exact hend h (by simp)
  · next hshort =>
    cases ts with
    | nil =>
      obtain ⟨-, -, hnull⟩ := parseEnd_formed h
      exact absurd hnull (by decide)
    | cons k rest => exact hend h (by simp)

theorem ReadFrom.skip {k : Token} {ts : List Token} {a : FtnAddr} (h : ReadFrom pDomains ts a) (hk : k.type ≠ .null)
    (hc : k.c ≠ 64) : ReadFrom pDomains (k :: ts) a := by
  have hb : behindAt (k :: ts) = behindAt ts := behindAt_skip hk hc
  exact ⟨h.formed, by rw [hb]; exact h.domain, by rw [hb]; exact h.word⟩

theorem ReadFrom.skip_num {k : Token} {ts : List Token} {a : FtnAddr} (h : ReadFrom pDomains ts a)
    (hk : k.type = .num) : ReadFrom pDomains (k :: ts) a := by
  obtain ⟨hnull, hc, -⟩ := num_token hk
  exact h.skip hnull (by rw [hc]; decide)

theorem ReadFrom.skip_sep {k : Token} {ts : List Token} {a : FtnAddr} (h : ReadFrom pDomains ts a)
    {c : Byte} (hk : k.c = c) (hc : c ≠ 0 ∧ c ≠ 64) : ReadFrom pDomains (k :: ts) a :=
  h.skip (sep_token (by rw [hk]; exact hc.1)) (by rw [hk]; exact hc.2)

theorem parsePoint_read {fa a : FtnAddr} {ts : List Token} (h : parsePoint pDomains fa ts = some a)
    (hfa : fa.domain = []) (hts : ∀ k ∈ ts, k.Made) : ReadFrom pDomains ts a := by
  unfold parsePoint at h
  split at h
  · next k u rest =>
    split_ifs at h with hc hu
    · have hrest : ∀ k ∈ rest, k.Made := fun x hx => hts x (by simp [hx])
      have hread := parseDomain_read h hfa hrest
      exact (hread.skip_num (not_not.mp hu)).skip_sep hc (by decide)
    · exact parseDomain_read h hfa hts
  · exact parseDomain_read h hfa hts

theorem parseNode_read {fa a : FtnAddr} {ts : List Token} (h : parseNode pDomains fa ts = some a)
    (hfa : fa.domain = []) (hts : ∀ k ∈ ts, k.Made) : ReadFrom pDomains ts a := by
  have hnode : ∀ {k : Token} {rest : List Token}, (∀ x ∈ k :: rest, x.Made) →
      (if k.type = .num then parsePoint pDomains { fa with node := k.n } rest
        else if k.c ≠ 46 then none else parsePoint pDomains fa (k :: rest)) = some a →
      ReadFrom pDomains (k :: rest) a := by
    intro k rest hts h
    split_ifs at h with hk hc
    · exact (parsePoint_read h hfa fun x hx => hts x (by simp [hx])).skip_num hk
    · exact parsePoint_read h hfa hts
  unfold parseNode at h
  by_cases hslash : (ts.headD {}).c = 47
  · rw [if_pos hslash] at h
    cases ts with
    | nil => exact absurd hslash (by decide)
    | cons sep ts =>
      cases ts with
      | nil => contradiction
      | cons k rest => exact (hnode (fun x hx => hts x (List.mem_cons_of_mem sep hx)) h).skip_sep hslash (by decide)
  · rw [if_neg hslash] at h
    cases ts with
    | nil => contradiction
    | cons k rest => exact hnode hts h

theorem parseNet_read {fa a : FtnAddr} {ts : List Token} (h : parseNet pDomains fa ts = some a)
    (hfa : fa.domain = []) (hts : ∀ k ∈ ts, k.Made) : ReadFrom pDomains ts a := by
  unfold parseNet at h
  split at h
  · next k u rest =>
    split_ifs at h with hk
    · exact (parseNode_read h hfa fun x hx => hts x (List.mem_cons_of_mem k hx)).skip_num hk.1
    · exact parseNode_read h hfa hts
  · exact parseNode_read h hfa hts

/-- An address that is read has the parts that belong together, and the domain that the text names. -/
theorem parseFtnaddress_read {s : Str} {a : FtnAddr} (h : parseFtnaddress s pDomains = some a) :
    a.Formed ∧ (∀ w ∈ domainWord s, DomainWord w) ∧
      a.domain = match domainWord s with
        | some w => domainNamed pDomains w
        | none => [] := by
  have hread : ∀ {ts}, gettokens 10 s = some ts → ReadFrom pDomains ts a → a.Formed ∧
      (∀ w ∈ domainWord s, DomainWord w) ∧ a.domain = match domainWord s with
        | some w => domainNamed pDomains w
        | none => [] := by
    intro ts hts hr
    rw [domainWord, hts]
    exact ⟨hr.formed, hr.word, hr.domain⟩
  unfold parseFtnaddress at h
  split at h
  · next k u rest hts =>
    have hmade := gettokens_made hts
    split_ifs at h with hk
    · refine hread hts ?_
      have hr := parseNet_read h rfl fun x hx => hmade x (by simp [hx])
      exact (hr.skip_sep hk.2 (by decide)).skip_num hk.1
    · exact hread hts (parseNet_read h rfl hmade)
  · contradiction

/-! ### The tokens of a printed address -/

theorem gettoken_sep {c : Byte} (hc : c = 58 ∨ c = 47 ∨ c = 46 ∨ c = 64) (r : Str) :
    gettoken (c :: r) = some ({ c := c }, r) := by
  rw [gettoken, if_pos hc]

theorem gettokens_sep {c : Byte} (hc : c = 58 ∨ c = 47 ∨ c = 46 ∨ c = 64) (k : ℕ) (r : Str) :
    gettokens (k + 1) (c :: r) = (gettokens k r).map ({ c := c } :: ·) := by
  rw [gettokens, gettoken_sep hc]

/-- The token of a number that is printed. -/
theorem gettokens_num {n : Int32} (hn : 0 ≤ n.toInt) (k : ℕ) {r : Str} (hr : isdigit (r.headD 0) = false) :
    gettokens (k + 1) (decimalInt n.toInt ++ r) = (gettokens k r).map ({ n := n } :: ·) := by
  have hall := decimal_isdigit n.toInt.natAbs
  obtain ⟨c, rest, hcons, hc⟩ := decimal_cons n.toInt.natAbs
  have hprint : decimalInt n.toInt = decimal n.toInt.natAbs := by
    rw [decimalInt, if_neg (by omega)]
  have hstop : r.takeWhile isdigit = [] ∧ r.dropWhile isdigit = r := by
    cases r with
    | nil => exact ⟨rfl, rfl⟩
    | cons x r =>
      rw [List.headD_cons] at hr
      exact ⟨by rw [List.takeWhile_cons, hr]; rfl, by rw [List.dropWhile_cons, hr]; rfl⟩
  have htake : (decimal n.toInt.natAbs ++ r).takeWhile isdigit = decimal n.toInt.natAbs := by
    rw [List.takeWhile_append_of_pos hall, hstop.1, List.append_nil]
  have hdrop : (decimal n.toInt.natAbs ++ r).dropWhile isdigit = r := by
    rw [List.dropWhile_append_of_pos hall, hstop.2]
  have hvalue : (decimal n.toInt.natAbs).foldl (fun (n : Int32) d => n * 10 + d.toUInt32.toInt32 - 48) 0 = n := by
    rw [numeral_value hall, digitsValue_decimal]
    apply Int32.toInt_inj.mp
    have hlt := n.toInt_lt
    rw [Int32.toInt_ofNat_of_lt (by omega)]
    omega
  have hget : gettoken (decimal n.toInt.natAbs ++ r) = some ({ n := n }, r) := by
    rw [hcons, List.cons_append] at htake hdrop ⊢
    rw [gettoken, if_neg (digit_byte hc).1, if_pos hc, htake, hdrop, ← hcons, hvalue]
  rw [gettokens, hprint, hget]

theorem gettokens_nil (k : ℕ) : gettokens k [] = some (List.replicate k { n := -1 }) := by
  induction k with
  | zero => rfl
  | succ k ih =>
    rw [gettokens, gettoken]
    simp only [ih]
    rfl

/-- A word at the end. -/
theorem gettokens_word (h : DomainWord w) (k : ℕ) :
    gettokens (k + 1) w = some ({ s := w } :: List.replicate k { n := -1 }) := by
  obtain ⟨c, rest, rfl⟩ := List.exists_cons_of_ne_nil h.ne_nil
  have hc : isalpha c = true := h.head
  obtain ⟨hsep, hdigit, -, -⟩ := alpha_byte hc
  have htake : (c :: rest).takeWhile (fun c => decide (c = 46 ∨ c = 45 ∨ c = 95 ∨ isalnum c)) = c :: rest :=
    List.takeWhile_eq_self_iff.mpr h.bytes
  have hget : gettoken (c :: rest) = some ({ s := c :: rest }, []) := by
    rw [gettoken, if_neg hsep, if_neg (by simp [hdigit]), if_pos hc]
    dsimp only
    rw [htake, List.take_of_length_le h.length, List.drop_length]
  rw [gettokens, hget]
  dsimp only
  rw [gettokens_nil]
  rfl

/-- Anything else at the end is no single word. -/
theorem gettokens_other (hw : w ≠ []) (hlen : w.length ≤ maxDomain) (h : ¬ DomainWord w) (k : ℕ)
    (hts : gettokens (k + 2) w = some ts) : ∃ u x rest, ts = u :: x :: rest ∧
    (u.type ≠ .word ∨ x.type ≠ .null) := by
  obtain ⟨c, r, rfl⟩ := List.exists_cons_of_ne_nil hw
  rw [gettokens] at hts
  split at hts
  · contradiction
  · next u r' hget =>
    obtain ⟨ts', hts', rfl⟩ := Option.map_eq_some_iff.mp hts
    rw [gettokens] at hts'
    split at hts'
    · contradiction
    · next x r'' hget' =>
      obtain ⟨rest, -, rfl⟩ := Option.map_eq_some_iff.mp hts'
      refine ⟨u, x, rest, rfl, ?_⟩
      rw [gettoken] at hget
      split_ifs at hget with hsep hdigit halpha
      · obtain ⟨rfl, -⟩ := Prod.mk.inj (Option.some.inj hget)
        left
        rw [Token.type, if_neg (by simp)]
        split_ifs <;> simp
      · obtain ⟨rfl, -⟩ := Prod.mk.inj (Option.some.inj hget)
        left
        rw [Token.type, if_neg (by simp)]
        split_ifs <;> simp
      · -- the word ends before the text does
        right
        dsimp only at hget
        obtain ⟨-, hr'⟩ := Prod.mk.inj (Option.some.inj hget)
        set p : Byte → Bool := fun c => decide (c = 46 ∨ c = 45 ∨ c = 95 ∨ isalnum c) with hp
        have hle : ((c :: r).takeWhile p).length ≤ maxDomain :=
          (List.takeWhile_sublist p).length_le.trans hlen
        rw [List.take_of_length_le hle] at hr'
        have hrest : (c :: r).drop ((c :: r).takeWhile p).length = (c :: r).dropWhile p := by
          have happ := List.takeWhile_append_dropWhile (p := p) (l := c :: r)
          nth_rewrite 2 [← happ]
          exact List.drop_left
        rw [hrest] at hr'
        cases hdrop : (c :: r).dropWhile p with
        | nil =>
          exfalso
          refine h ⟨halpha, fun x hx => ?_, hlen⟩
          have hall := List.dropWhile_eq_nil_iff.mp hdrop
          exact hall x hx
        | cons y r2 =>
          rw [hdrop] at hr'
          subst hr'
          have hy : p y = false := by
            have hne : (c :: r).dropWhile p ≠ [] := by rw [hdrop]; simp
            have hhead := List.head_dropWhile_not p hne
            simpa [hdrop] using hhead
          have hny : isdigit y = false ∧ isalpha y = false := by
            simp only [hp, decide_eq_false_iff_not, not_or] at hy
            have := hy.2.2.2
            simp only [isalnum, Bool.or_eq_true, not_or, Bool.not_eq_true] at this
            exact ⟨this.2, this.1⟩
          by_cases hsep' : y = 58 ∨ y = 47 ∨ y = 46 ∨ y = 64
          · rw [gettoken, if_pos hsep'] at hget'
            obtain ⟨rfl, -⟩ := Prod.mk.inj (Option.some.inj hget')
            refine sep_token ?_
            rcases hsep' with rfl | rfl | rfl | rfl <;> decide
          · rw [gettoken, if_neg hsep', if_neg (by simp [hny.1]), if_neg (by simp [hny.2])] at hget'
            contradiction

/-! ### The round trip -/

/-- The last part of a printed address: the point and the domain. -/
def printedEnd (a : FtnAddr) (forcePoint : Bool) : Str :=
  (if a.p ≠ 0 ∨ a.node = -1 ∨ forcePoint then str "." ++ decimalInt a.p.toInt else []) ++
    (if a.domain ≠ [] then str "@" ++ a.domain else [])

theorem num_type {n : Int32} (hn : n ≠ -1) : ({ n := n } : Token).type = .num := by
  rw [Token.type, if_neg (by simp), if_neg (by simp), if_neg hn]

theorem ne_of_nonneg {n : Int32} (hn : 0 ≤ n.toInt) : n ≠ -1 := by
  rintro rfl
  exact absurd hn (by decide)

/-- The domain of an address is read back. -/
def DomainBack (pDomains : List FtnDomain) (a : FtnAddr) : Prop :=
  a.domain = [] ∨ DomainWord a.domain ∧ domainNamed pDomains a.domain = a.domain

theorem parseDomain_back {a : FtnAddr} (fa : FtnAddr) (hform : a.Formed) (hp : fa.p = a.p ∨ fa.p = -1 ∧ a.p = 0) (hz : fa.z = a.z) (hnet : fa.net = a.net)
    (hnode : fa.node = a.node) (hd : fa.domain = []) (hlen : a.domain.length ≤ maxDomain)
    (hthere : a.node ≠ -1 ∨ fa.p ≠ -1) (k : ℕ) :
    (∃ ts, gettokens (k + 3) (if a.domain ≠ [] then str "@" ++ a.domain else []) = some ts ∧
      parseDomain pDomains fa ts = some a) ↔ DomainBack pDomains a := by
  have hend : ∀ dom, (dom ≠ [] → fa.z ≠ -1) → ∀ x : Token, ∀ rest, x.type = .null →
      parseEnd { fa with domain := dom } (x :: rest) = some { a with domain := dom } := by
    intro dom hdom x rest hx
    have hbad : ¬ (((x :: rest).headD {}).type ≠ .null ∨ (fa.node = -1 ∧ fa.p = -1) ∨
      (dom ≠ [] ∧ fa.z = -1) ∨
        (fa.z ≠ -1 ∧ fa.net = -1) ∨ (fa.net ≠ -1 ∧ fa.node = -1)) := by
      rw [List.headD_cons, hz, hnet, hnode]
      rintro (h | h | h | h | h)
      · exact h hx
      · exact hthere.elim (fun h' => h' h.1) fun h' => h' h.2
      · exact hdom h.1 (hz.trans h.2)
      · exact hform.net h.1 h.2
      · exact hform.node h.1 h.2
    rw [parseEnd, if_neg hbad]
    rcases hp with hp | ⟨hp, hp'⟩
    · have hne : ¬ fa.p = -1 := by
        rw [hp]
        exact hform.point
      dsimp only
      rw [if_neg hne]
      simp [hz, hnet, hnode, hp]
    · dsimp only
      rw [if_pos hp]
      simp [hz, hnet, hnode, hp']
  by_cases hnil : a.domain = []
  · rw [if_neg (not_not.mpr hnil), gettokens_nil]
    refine iff_of_true ⟨_, rfl, ?_⟩ (.inl hnil)
    have h := hend [] (fun h => absurd rfl h) { n := -1 } (List.replicate (k + 2) { n := -1 }) rfl
    have hfa : { fa with domain := [] } = fa := by rw [← hd]
    have ha : { a with domain := [] } = a := by rw [← hnil]
    rw [hfa, ha] at h
    rw [List.replicate_succ, List.replicate_succ, parseDomain, if_neg (by decide), ← List.replicate_succ]
    exact h
  · have hat : str "@" ++ a.domain = 64 :: a.domain := rfl
    rw [if_pos hnil, hat, gettokens_sep (by simp)]
    by_cases hword : DomainWord a.domain
    · rw [gettokens_word hword]
      have heval : parseDomain pDomains fa ({ c := 64 } :: { s := a.domain } :: List.replicate (k + 1) { n := -1 }) =
          some { a with domain := domainNamed pDomains a.domain } := by
        rw [parseDomain, if_pos rfl, if_neg (not_not.mpr (by rw [Token.type, if_pos hnil]))]
        exact hend _ (fun _ => hz ▸ hform.zone hnil) _ _ rfl
      constructor
      · rintro ⟨ts, hts, hparse⟩
        obtain rfl := Option.some.inj hts
        rw [heval] at hparse
        exact .inr ⟨hword, congrArg FtnAddr.domain (Option.some.inj hparse)⟩
      · intro hback
        obtain ⟨-, hsame⟩ := hback.resolve_left hnil
        refine ⟨_, rfl, heval.trans ?_⟩
        rw [hsame]
    · refine iff_of_false ?_ fun hback => hword (hback.resolve_left hnil).1
      rintro ⟨ts, hts, hparse⟩
      obtain ⟨ts', hts', rfl⟩ := Option.map_eq_some_iff.mp hts
      obtain ⟨u, x, rest, rfl, hbad⟩ := gettokens_other hnil hlen hword k hts'
      rw [parseDomain, if_pos rfl] at hparse
      split_ifs at hparse with hu
      rw [parseEnd, List.headD_cons] at hparse
      have hx : x.type ≠ .null := hbad.resolve_left fun h => h (not_not.mp hu)
      rw [if_pos (.inl hx)] at hparse
      contradiction

theorem printedEnd_head (a : FtnAddr) (forcePoint : Bool) :
    isdigit ((printedEnd a forcePoint).headD 0) = false := by
  unfold printedEnd
  split_ifs <;> rfl

/-- The end of a printed address is read back behind its other numbers. -/
theorem parsePoint_back {a : FtnAddr} (fa : FtnAddr) (hform : a.Formed) (hpoint : 0 ≤ a.p.toInt) (hp : fa.p = -1) (hz : fa.z = a.z)
    (hnet : fa.net = a.net) (hnode : fa.node = a.node) (hd : fa.domain = []) (hlen : a.domain.length ≤ maxDomain)
    (forcePoint : Bool) (k : ℕ) :
    (∃ ts, gettokens (k + 5) (printedEnd a forcePoint) = some ts ∧ parsePoint pDomains fa ts = some a) ↔
      DomainBack pDomains a := by
  have hpne := ne_of_nonneg hpoint
  have hdig : isdigit ((if a.domain ≠ [] then str "@" ++ a.domain else []).headD 0) = false := by
    split_ifs <;> rfl
  by_cases hprint : a.p ≠ 0 ∨ a.node = -1 ∨ forcePoint = true
  · have hat : printedEnd a forcePoint = 46 :: (decimalInt a.p.toInt ++
        (if a.domain ≠ [] then str "@" ++ a.domain else [])) := by
      rw [printedEnd, if_pos hprint, List.append_assoc]
      rfl
    rw [hat, gettokens_sep (by simp), gettokens_num hpoint _ hdig]
    have hback := @parseDomain_back pDomains a { fa with p := a.p } hform (.inl rfl) hz
      hnet hnode hd hlen (.inr hpne) k
    rw [← hback]
    constructor
    · rintro ⟨ts, hts, hparse⟩
      obtain ⟨ts1, hts1, rfl⟩ := Option.map_eq_some_iff.mp hts
      obtain ⟨ts2, hts2, rfl⟩ := Option.map_eq_some_iff.mp hts1
      rw [parsePoint, if_pos rfl, if_neg (not_not.mpr (num_type hpne))] at hparse
      exact ⟨ts2, hts2, hparse⟩
    · rintro ⟨ts2, hts2, hparse⟩
      refine ⟨_, by rw [hts2]; rfl, ?_⟩
      rw [parsePoint, if_pos rfl, if_neg (not_not.mpr (num_type hpne))]
      exact hparse
  · have hat : printedEnd a forcePoint = if a.domain ≠ [] then str "@" ++ a.domain else [] := by
      rw [printedEnd, if_neg hprint, List.nil_append]
    obtain ⟨hzero, hthere, -⟩ : a.p = 0 ∧ a.node ≠ -1 ∧ ¬ forcePoint = true := by
      simpa only [ne_eq, not_or, not_not] using hprint
    have hback := @parseDomain_back pDomains a fa hform (.inr ⟨hp, hzero⟩) hz hnet hnode hd
      hlen (.inl hthere) (k + 2)
    rw [hat, ← hback]
    refine exists_congr fun ts => and_congr_right fun hts => ?_
    have hskip : parsePoint pDomains fa ts = parseDomain pDomains fa ts := by
      unfold parsePoint
      split
      · next u x rest =>
        have hne : u.c ≠ 46 := by
          by_cases hnil : a.domain = []
          · rw [if_neg (not_not.mpr hnil), gettokens_nil, List.replicate_succ] at hts
            have := (List.cons.inj (Option.some.inj hts)).1
            rw [← this]
            decide
          · have h64 : str "@" ++ a.domain = 64 :: a.domain := rfl
            rw [if_pos hnil, h64, gettokens_sep (by simp)] at hts
            obtain ⟨ts', -, heq⟩ := Option.map_eq_some_iff.mp hts
            rw [← (List.cons.inj heq).1]
            decide
        rw [if_neg hne]
      · rfl
    rw [hskip]

theorem gettokens_length {n : ℕ} {s : Str} {ts : List Token} (h : gettokens n s = some ts) :
    ts.length = n := by
  induction n generalizing s ts with
  | zero =>
    obtain rfl := Option.some.inj h
    rfl
  | succ n ih =>
    rw [gettokens] at h
    split at h
    · contradiction
    · obtain ⟨ts', hts', rfl⟩ := Option.map_eq_some_iff.mp h
      rw [List.length_cons, ih hts']

/-- Behind the tokens of the first numbers the rest is read as it is. -/
theorem parse_rest {k : ℕ} {s r : Str} {a fa : FtnAddr} (front : List Token)
    (htokens : gettokens 10 s = (gettokens (k + 5) r).map (front ++ ·))
    (hparse : ∀ ts, ts.length = k + 5 → gettokens (k + 5) r = some ts →
      parseFtnaddress s pDomains = parsePoint pDomains fa ts) :
    parseFtnaddress s pDomains = some a ↔
      ∃ ts, gettokens (k + 5) r = some ts ∧ parsePoint pDomains fa ts = some a := by
  constructor
  · intro h
    cases hts : gettokens (k + 5) r with
    | none =>
      rw [hts] at htokens
      rw [parseFtnaddress, htokens] at h
      contradiction
    | some ts => exact ⟨ts, rfl, (hparse ts (gettokens_length hts) hts).symm.trans h⟩
  · rintro ⟨ts, hts, h⟩
    rw [hparse ts (gettokens_length hts) hts, h]

-- what follows a number in a printed address is no digit
theorem slash_end (r : Str) : isdigit ((47 :: r).headD 0) = false := rfl

theorem colon_end (r : Str) : isdigit ((58 :: r).headD 0) = false := rfl

theorem parse_back_point {a : FtnAddr} (hform : a.Formed) (hplain : a.Plain) (hlen : a.domain.length ≤ maxDomain)
    (forcePoint : Bool) (hz : a.z = -1) (hnet : a.net = -1) (hnode : a.node = -1) :
    parseFtnaddress (xftnaddressToStr a forcePoint) pDomains = some a ↔ DomainBack pDomains a := by
  have htext : xftnaddressToStr a forcePoint = printedEnd a forcePoint := by
    rw [xftnaddressToStr, printedEnd, if_neg (not_not.mpr hz), if_neg (not_not.mpr hnet),
      if_neg (not_not.mpr hnode)]
    simp
  rw [htext, ← parsePoint_back {} hform (hplain.p.resolve_left hform.point) rfl hz.symm hnet.symm hnode.symm rfl
    hlen forcePoint 5]
  refine parse_rest [] (by simp) fun ts hlength hts => ?_
  have hdot : printedEnd a forcePoint = 46 :: (decimalInt a.p.toInt ++
      (if a.domain ≠ [] then str "@" ++ a.domain else [])) := by
    rw [printedEnd, if_pos (.inr (.inl hnode)), List.append_assoc]
    rfl
  have hts' := hts
  rw [hdot, gettokens_sep (by simp)] at hts'
  obtain ⟨ts1, hts1, rfl⟩ := Option.map_eq_some_iff.mp hts'
  obtain ⟨u, rest, rfl⟩ : ∃ u rest, ts1 = u :: rest := List.exists_cons_of_ne_nil (by
    rintro rfl
    simp at hlength)
  have hsep : ({ c := 46 } : Token).type = .sep := rfl
  rw [parseFtnaddress, hts]
  simp [hsep, parseNet, parseNode]

theorem parse_back_node {a : FtnAddr} (hform : a.Formed) (hplain : a.Plain) (hlen : a.domain.length ≤ maxDomain)
    (forcePoint : Bool) (hz : a.z = -1) (hnet : a.net = -1) (hnode : a.node ≠ -1) :
    parseFtnaddress (xftnaddressToStr a forcePoint) pDomains = some a ↔ DomainBack pDomains a := by
  have hnodePos := hplain.node.resolve_left hnode
  have hhead := printedEnd_head a forcePoint
  have htext : xftnaddressToStr a forcePoint = 47 :: (decimalInt a.node.toInt ++ printedEnd a forcePoint) := by
    rw [xftnaddressToStr, printedEnd, if_neg (not_not.mpr hz), if_neg (not_not.mpr hnet), if_pos hnode]
    simp [str]
  rw [htext, ← parsePoint_back { node := a.node } hform (hplain.p.resolve_left hform.point) rfl hz.symm hnet.symm
    rfl rfl hlen forcePoint 3]
  refine parse_rest [{ c := 47 }, { n := a.node }] ?_ fun ts hlength hts => ?_
  · rw [gettokens_sep (by simp), gettokens_num hnodePos _ hhead, Option.map_map]
    rfl
  · have hsep : ({ c := 47 } : Token).type = .sep := rfl
    rw [parseFtnaddress, gettokens_sep (by simp), gettokens_num hnodePos _ hhead, hts]
    simp [hsep, parseNet, parseNode, num_type hnode]

theorem parse_back_net {a : FtnAddr} (hform : a.Formed) (hplain : a.Plain) (hlen : a.domain.length ≤ maxDomain)
    (forcePoint : Bool) (hz : a.z = -1) (hnet : a.net ≠ -1) (hnode : a.node ≠ -1) :
    parseFtnaddress (xftnaddressToStr a forcePoint) pDomains = some a ↔ DomainBack pDomains a := by
  have hnodePos := hplain.node.resolve_left hnode
  have hnetPos := hplain.net.resolve_left hnet
  have hhead := printedEnd_head a forcePoint
  have htext : xftnaddressToStr a forcePoint =
      decimalInt a.net.toInt ++ 47 :: (decimalInt a.node.toInt ++ printedEnd a forcePoint) := by
    rw [xftnaddressToStr, printedEnd, if_neg (not_not.mpr hz), if_pos hnet, if_pos hnode]
    simp [str]
  rw [htext, ← parsePoint_back { net := a.net, node := a.node } hform (hplain.p.resolve_left hform.point) rfl hz.symm
    rfl rfl rfl hlen forcePoint 2]
  refine parse_rest [{ n := a.net }, { c := 47 }, { n := a.node }] ?_ fun ts hlength hts => ?_
  · rw [gettokens_num hnetPos _ (slash_end _), gettokens_sep (by simp), gettokens_num hnodePos _ hhead,
      Option.map_map, Option.map_map]
    rfl
  · rw [parseFtnaddress, gettokens_num hnetPos _ (slash_end _), gettokens_sep (by simp),
      gettokens_num hnodePos _ hhead, hts]
    simp [parseNet, parseNode, num_type hnode, num_type hnet]

theorem parse_back_zone {a : FtnAddr} (hform : a.Formed) (hplain : a.Plain) (hlen : a.domain.length ≤ maxDomain)
    (forcePoint : Bool) (hz : a.z ≠ -1) (hnet : a.net ≠ -1) (hnode : a.node ≠ -1) :
    parseFtnaddress (xftnaddressToStr a forcePoint) pDomains = some a ↔ DomainBack pDomains a := by
  have hnodePos := hplain.node.resolve_left hnode
  have hnetPos := hplain.net.resolve_left hnet
  have hzPos := hplain.z.resolve_left hz
  have hhead := printedEnd_head a forcePoint
  have htext : xftnaddressToStr a forcePoint = decimalInt a.z.toInt ++ 58 :: (decimalInt a.net.toInt ++
      47 :: (decimalInt a.node.toInt ++ printedEnd a forcePoint)) := by
    rw [xftnaddressToStr, printedEnd, if_pos hz, if_pos hnet, if_pos hnode]
    simp [str]
  rw [htext, ← parsePoint_back { z := a.z, net := a.net, node := a.node } hform
    (hplain.p.resolve_left hform.point) rfl rfl rfl rfl rfl hlen forcePoint 0]
  refine parse_rest [{ n := a.z }, { c := 58 }, { n := a.net }, { c := 47 }, { n := a.node }] ?_
    fun ts hlength hts => ?_
  · rw [gettokens_num hzPos _ (colon_end _), gettokens_sep (by simp), gettokens_num hnetPos _ (slash_end _),
      gettokens_sep (by simp), gettokens_num hnodePos _ hhead, Option.map_map, Option.map_map, Option.map_map,
      Option.map_map]
    rfl
  · rw [parseFtnaddress, gettokens_num hzPos _ (colon_end _), gettokens_sep (by simp),
      gettokens_num hnetPos _ (slash_end _), gettokens_sep (by simp), gettokens_num hnodePos _ hhead, hts]
    simp [parseNet, parseNode, num_type hnode, num_type hnet, num_type hz]

/-- A printed address is read back if and only if its domain is. -/
theorem parse_back {a : FtnAddr} (hform : a.Formed) (hplain : a.Plain) (hlen : a.domain.length ≤ maxDomain)
    (forcePoint : Bool) :
    parseFtnaddress (xftnaddressToStr a forcePoint) pDomains = some a ↔ DomainBack pDomains a := by
  by_cases hnode : a.node = -1
  · have hnet : a.net = -1 := by
      by_contra h
      exact hform.node h hnode
    have hz : a.z = -1 := by
      by_contra h
      exact hform.net h hnet
    exact parse_back_point hform hplain hlen forcePoint hz hnet hnode
  · by_cases hnet : a.net = -1
    · have hz : a.z = -1 := by
        by_contra h
        exact hform.net h hnet
      exact parse_back_node hform hplain hlen forcePoint hz hnet hnode
    · by_cases hz : a.z = -1
      · exact parse_back_net hform hplain hlen forcePoint hz hnet hnode
      · exact parse_back_zone hform hplain hlen forcePoint hz hnet hnode

/-- The condition of the round trip: an alias that the text names is for a domain with a name that the
parser reads, and which is not an alias itself. -/
def NamedPlainly (t : List FtnDomain) (s : Str) : Prop :=
  ∀ w ∈ domainWord s, ∀ d ∈ getDomainInfo w t, ∀ x ∈ d.alias4,
    x = [] ∨ DomainWord x ∧ ∀ e ∈ getDomainInfo x t, e.alias4 = none

instance (t : List FtnDomain) (s : Str) : Decidable (NamedPlainly t s) :=
  inferInstanceAs (Decidable (∀ w ∈ domainWord s, ∀ d ∈ getDomainInfo w t, ∀ x ∈ d.alias4,
    x = [] ∨ DomainWord x ∧ ∀ e ∈ getDomainInfo x t, e.alias4 = none))

/-- Words that are equal but for the case are read alike. -/
theorem DomainWord.congr (h : DomainWord w) (hv : 0 ∉ v) (hvw : stricmp v w = 0) : DomainWord v := by
  have hw0 : 0 ∉ w := fun h0 => absurd (h.bytes 0 h0) (by decide)
  have hmap := (stricmp_eq_zero hv hw0).mp hvw
  have hlen : v.length = w.length := by simpa using congrArg List.length hmap
  have hcase : ∀ c : Byte, isWordByte (tolower c) = isWordByte c ∧ isalpha (tolower c) = isalpha c :=
    forall_byte (p := fun c => isWordByte (tolower c) = isWordByte c ∧ isalpha (tolower c) = isalpha c)
      (by decide +kernel)
  refine ⟨?_, fun c hc => ?_, hlen ▸ h.length⟩
  · have hhead : tolower (v.headD 0) = tolower (w.headD 0) := by
      have := congrArg (fun l => List.headD l 0) hmap
      cases v <;> cases w <;> simp_all
    rw [← (hcase (v.headD 0)).2, hhead, (hcase _).2]
    exact h.head
  · have hmem : tolower c ∈ w.map tolower := hmap ▸ List.mem_map_of_mem hc
    obtain ⟨x, hx, hxc⟩ := List.mem_map.mp hmem
    rw [← (hcase c).1, ← hxc, (hcase x).1]
    exact h.bytes x hx

theorem domainNamed_of (h : getDomainInfo w t = some d) : domainNamed t w = d.alias4.getD d.name := by
  rw [domainNamed, h]

/-- What the address has for the domain, and when it is read back. -/
theorem domainBack_iff (ht : TableInv t) (hw : DomainWord w) (hdomain : a.domain = domainNamed t w) :
    a.domain.length ≤ maxDomain ∧ (DomainBack t a ↔ ∀ d ∈ getDomainInfo w t, ∀ x ∈ d.alias4,
      x = [] ∨ DomainWord x ∧ ∀ e ∈ getDomainInfo x t, e.alias4 = none) := by
  have hw0 : 0 ∉ w := fun h0 => absurd (hw.bytes 0 h0) (by decide)
  have hfind : ∀ {w d}, getDomainInfo w t = some d → d ∈ t ∧ stricmp d.name w = 0 := by
    intro w d hd
    exact ⟨List.mem_of_find?_eq_some hd, of_decide_eq_true (List.find?_some (p := fun d : FtnDomain =>
      decide (stricmp d.name w = 0)) hd)⟩
  unfold DomainBack
  rw [hdomain]
  cases hd : getDomainInfo w t with
  | none =>
    have hnamed : domainNamed t w = w := by rw [domainNamed, hd]
    rw [hnamed]
    exact ⟨hw.length, iff_of_true (.inr ⟨hw, hnamed⟩) (by simp)⟩
  | some d =>
    obtain ⟨hdmem, hdw⟩ := hfind hd
    cases halias : d.alias4 with
    | none =>
      have hnamed : domainNamed t w = d.name := by
        rw [domainNamed_of hd, halias]
        rfl
      have hown : getDomainInfo d.name t = some d :=
        (getDomainInfo_congr hdw (ht.nul d hdmem) hw0 ht.nul).trans hd
      have hsame : domainNamed t d.name = d.name := by
        rw [domainNamed_of hown, halias]
        rfl
      rw [hnamed]
      refine ⟨ht.length d hdmem, iff_of_true (.inr ⟨hw.congr (ht.nul d hdmem) hdw, hsame⟩) ?_⟩
      intro d' hd' x hx
      obtain rfl := Option.mem_some_iff.mp hd'
      rw [halias] at hx
      contradiction
    | some x =>
      have hnamed : domainNamed t w = x := by
        rw [domainNamed_of hd, halias]
        rfl
      obtain ⟨e, he, hex⟩ := ht.target d hdmem x halias
      obtain ⟨hemem, -⟩ := hfind he
      have hx0 : 0 ∉ x := hex ▸ ht.nul e hemem
      rw [hnamed]
      refine ⟨hex ▸ ht.length e hemem, ?_⟩
      have hback : domainNamed t x = x ↔ e.alias4 = none := by
        rw [domainNamed_of he]
        cases hy : e.alias4 with
        | none => exact iff_of_true hex rfl
        | some y =>
          refine iff_of_false (fun h => ?_) (by simp)
          have hyx : y = x := h
          exact ht.other x hx0 e he y hy (by rw [hyx]; exact stricmp_self x)
      simp only [Option.mem_some_iff, forall_eq', halias, he, hback]

/-- **The round trip of an address text**: what is printed of an address that was read is read as this
address again, if and only if an alias that the text names is for a plain domain. -/
theorem address_round_trip (ht : DomainTable t) (hnum : ∀ ds ∈ numerals 10 s, digitsValue ds < 2 ^ 31)
    (hparse : parseFtnaddress s t = some a) (forcePoint : Bool) :
    parseFtnaddress (xftnaddressToStr a forcePoint) t = some a ↔ NamedPlainly t s := by
  obtain ⟨hform, hword, hdomain⟩ := parseFtnaddress_read hparse
  have hplain := parseFtnaddress_plain hparse hnum
  unfold NamedPlainly
  cases hw : domainWord s with
  | none =>
    rw [hw] at hdomain
    dsimp only at hdomain
    rw [parse_back hform hplain (by simp [hdomain]) forcePoint]
    exact iff_of_true (.inl hdomain) (by simp)
  | some w =>
    rw [hw] at hdomain hword
    obtain ⟨hlen, hiff⟩ := domainBack_iff ht.inv (hword w rfl) hdomain
    rw [parse_back hform hplain hlen forcePoint, hiff]
    simp

/-- A domain, an alias for it, and an alias for the alias. -/
def chainLines : List (List Str) := [[str "fidonet", str "/o/out", str "2"], [str "fido", str "alias-for", str "fidonet"],
  [str "fi", str "alias-for", str "fido"]]

def chainTable : List FtnDomain := (chainLines.foldlM readDomainInfo []).getD []

theorem chainTable_accepted : DomainTable chainTable :=
  .line [str "fi", str "alias-for", str "fido"] (by decide +kernel)
    (.line [str "fido", str "alias-for", str "fidonet"] (by decide +kernel)
      (.line [str "fidonet", str "/o/out", str "2"] (by decide +kernel) .empty rfl) rfl) rfl

/-- The alias of an alias does not come back. -/
theorem alias_chain_lost : DomainTable chainTable ∧
    (∀ ds ∈ numerals 10 (str "2:5020/1@fi"), digitsValue ds < 2 ^ 31) ∧
    (parseFtnaddress (str "2:5020/1@fi") chainTable).map ftnaddressToStr = some (str "2:5020/1@fido") ∧
    ∃ a, parseFtnaddress (str "2:5020/1@fi") chainTable = some a ∧
      parseFtnaddress (ftnaddressToStr a) chainTable ≠ some a := by
  refine ⟨chainTable_accepted, by decide +kernel, by decide +kernel,
    ⟨str "fido", 2, 5020, 1, 0⟩, ?_, ?_⟩ <;>
    decide +kernel

/-- The alias of a domain does. -/
theorem address_round_trip_alias : parseFtnaddress (xftnaddressToStr ⟨str "fidonet", 2, 5020, 1, 0⟩ false) chainTable =
    some ⟨str "fidonet", 2, 5020, 1, 0⟩ :=
  (@address_round_trip chainTable (str "2:5020/1@fido") _ chainTable_accepted (by decide +kernel) (by decide +kernel) false).mpr
    (by decide +kernel)

end Binkd
