import Binkd.Misc.Portable
import Mathlib.Data.List.Infix
import Mathlib.Data.List.TakeWhile

/-!
# The answers of a proxy (`h_connect` of `https.c`)

The answers to a `CONNECT` and to the requests of SOCKS4 and SOCKS5 are read byte by byte, and
what stands behind them belongs to the session.  An answer is taken for what it is and read
to its end exactly if it is one of the known kinds (`proxy_answers_read`).
-/

namespace Binkd

/-! ### Reading byte by byte -/

/-- The loops of `h_connect`: a byte is read and added to the buffer, until the buffer is enough.
The result is the buffer and what has not been read; `none` where the stream ends before. -/
def readUntil (enough : List Byte → Bool) (buf : List Byte) : List Byte → Option (List Byte × List Byte)
  | [] => none
  | c :: stream =>
    if enough (buf ++ [c]) then some (buf ++ [c], stream) else readUntil enough (buf ++ [c]) stream

/-- What has been read is the shortest beginning of the stream that is enough. -/
structure ReadsTo (enough : List Byte → Bool) (stream read rest : List Byte) : Prop where
  split : stream = read ++ rest
  ne_nil : read ≠ []
  stops : enough read = true
  least : ∀ k, 0 < k → k < read.length → enough (stream.take k) = false

theorem readUntil_spec (enough : List Byte → Bool) : ∀ (stream buf read rest : List Byte),
    readUntil enough buf stream = some (read, rest) →
      ∃ t, read = buf ++ t ∧ ReadsTo (fun r => enough (buf ++ r)) stream t rest := by
  intro stream
  induction stream with
  | nil =>
    intro buf read rest h
    exact absurd h (by simp [readUntil])
  | cons c stream ih =>
    intro buf read rest h
    rw [readUntil] at h
    by_cases hc : enough (buf ++ [c]) = true
    · rw [if_pos hc] at h
      obtain ⟨rfl, rfl⟩ := Prod.mk.inj (Option.some.inj h)
      refine ⟨[c], rfl, rfl, by simp, hc, ?_⟩
      intro k hk hlt
      exact absurd hlt (by simp; omega)
    · rw [if_neg hc] at h
      obtain ⟨t, rfl, hread⟩ := ih (buf ++ [c]) read rest h
      refine ⟨c :: t, by simp, by rw [hread.split]; rfl, by simp, ?_, ?_⟩
      · have henough := hread.stops
        rwa [List.append_assoc] at henough
      · intro k hk hlt
        obtain ⟨k, rfl⟩ := Nat.exists_eq_succ_of_ne_zero hk.ne'
        rw [Nat.succ_eq_add_one, List.take_succ_cons]
        by_cases hzero : k = 0
        · rw [hzero, List.take_zero]
          simpa using hc
        · have hleast := hread.least k (by omega) (by simpa using hlt)
          rwa [List.append_assoc] at hleast

/-! ### The proxies -/

/-- Has the buffer the end of a header, or no room? -/
def httpEnough (buf : List Byte) : Bool :=
  buf.length ≥ 1023 || str "\r\n\r\n" <:+: cstr buf || str "\n\n" <:+: cstr buf

/-- The line of the status, and is it a success? -/
def httpAccepted (buf : List Byte) : Bool :=
  let line := (cstr buf).takeWhile (· != 10)
  let line := if line.getLast? = some 13 then line.dropLast else line
  str " 200 " <:+: line

/-- The loop over the answer of an HTTP proxy. -/
def httpProxy (stream : List Byte) : Option (List Byte × List Byte) :=
  (readUntil httpEnough [] stream).bind fun (buf, rest) => if httpAccepted buf then some (buf, rest) else none

/-- The loop over the addresses of a SOCKS4 connection. -/
def socks4 : ℕ → List Byte → List Byte → Option (List Byte × List Byte)
  | 0, read, stream => some (read, stream)
  | n + 1, read, stream => (readUntil (fun buf => buf.length ≥ 8) [] stream).bind fun (buf, rest) =>
    if buf[0]? ≠ some 0 then none
    else if buf[1]? ≠ some 90 then socks4 n (read ++ buf) rest
    else some (read ++ buf, rest)

/-- Is the SOCKS5 reply complete, or no reply? -/
def socks5Enough (buf : List Byte) : Bool :=
  buf.length ≥ 7 && (buf[0]? ≠ some 5 || !(buf[3]? = some 1 && buf.length < 10 ||
    buf[3]? = some 3 && buf.length < 7 + (buf.getD 4 0).toNat || buf[3]? = some 4 && buf.length < 22))

/-- The SOCKS5 reply to the request. -/
def socks5Reply (read stream : List Byte) : Option (List Byte × List Byte) :=
  (readUntil socks5Enough [] stream).bind fun (buf, rest) =>
    if buf[0]? = some 5 ∧ buf[1]? = some 0 then some (read ++ buf, rest) else none

/-- `recv (so, buf, 2, 0)`, where this many bytes have arrived. -/
def recv2 (arrived : ℕ) (stream : List Byte) : List Byte × List Byte :=
  (stream.take (min 2 arrived), stream.drop (min 2 arrived))

/-- A SOCKS5 connection: the method, the authentication if the server wants one, and the reply. -/
def socks5 (arrived : ℕ → ℕ) (stream : List Byte) : Option (List Byte × List Byte) :=
  match recv2 (arrived 0) stream with
  | ([v, method], rest) =>
    if method = 2 then
      match recv2 (arrived 1) rest with
      | ([v', 0], rest) => socks5Reply [v, method, v', 0] rest
      | _ => none
    else if method = 0 ∨ method = 1 then socks5Reply [v, method] rest
    else none
  | _ => none

/-- What `h_connect` has read when it succeeds, and what it has left. -/
structure ProxyRead where
  http : List Byte
  socks : List Byte
  rest : List Byte
deriving DecidableEq

/-- What `h_connect` meets, but for the stream: `send` to the proxy succeeds; the addresses that
`getaddrinfo` gives behind the first, if it succeeds; and the bytes that have arrived at each `recv`
of two. -/
structure ProxyEnv where
  sent : Bool := true
  more : Option ℕ := some 0
  arrived : ℕ → ℕ := fun _ => 2

/-- The part of `h_connect` for a SOCKS proxy; one with a slash is SOCKS5. -/
def socksPart (env : ProxyEnv) (socks : Str) (stream : List Byte) : Option (List Byte × List Byte) :=
  if socks = [] then some ([], stream)
  else match env.more with
    | none => none
    | some n => if 47 ∈ socks.take 1023 then socks5 env.arrived stream else socks4 (n + 1) [] stream

/-- `h_connect` without NTLM, as far as it reads. -/
def hConnect (env : ProxyEnv) (proxy socks : Str) (stream : List Byte) : Option ProxyRead :=
  if proxy = [] then (socksPart env socks stream).map fun (read, rest) => ⟨[], read, rest⟩
  else if !env.sent then none
  else (httpProxy stream).bind fun (http, rest) => (socksPart env socks rest).map fun (read, rest) => ⟨http, read, rest⟩

/-! ### What the proxy's answer is -/

/-- The bytes end with a blank line: a line feed, and an empty line behind it. -/
def EndsHeader (b : List Byte) : Prop := str "\n\n" <:+ b ∨ str "\n\r\n" <:+ b

/-- The response of an HTTP proxy, up to the first blank line. -/
def HttpAnswer (b : List Byte) : Prop := EndsHeader b ∧ ∀ k < b.length, ¬ EndsHeader (b.take k)

/-- The replies of a SOCKS4 server: of eight bytes each, and the last one grants the request. -/
def Socks4Answer (b : List Byte) : Prop :=
  ∃ m, b.length = 8 * (m + 1) ∧ ∀ j ≤ m, b[8 * j]? = some (0 : Byte) ∧
    (b[8 * j + 1]? = some (90 : Byte) ↔ j = m)

/-- The length of a SOCKS5 reply by the type of its address. -/
def replyLength (reply : List Byte) : Option ℕ :=
  match (reply[3]? : Option Byte) with
  | some 1 => some 10
  | some 3 => some (7 + (reply.getD 4 0).toNat)
  | some 4 => some 22
  | _ => none

/-- What a SOCKS5 server sends: the method, its word on the password if it asks for one, and the
reply. -/
def Socks5Answer (b : List Byte) : Prop :=
  ∃ (v method : Byte) (auth reply : List Byte), b = v :: method :: (auth ++ reply) ∧
    auth.length = (if method = 2 then 2 else 0) ∧
    reply[0]? = some (5 : Byte) ∧ reply[1]? = some (0 : Byte) ∧ replyLength reply = some reply.length

/-- What the SOCKS proxy sends before the connection is open. -/
def SocksAnswer (socks : Str) (b : List Byte) : Prop :=
  if socks = [] then b = [] else if 47 ∈ socks.take 1023 then Socks5Answer b else Socks4Answer b

/-- Just the answers of the proxies have been read. -/
def ReadExactly (proxy socks : Str) (r : ProxyRead) : Prop :=
  (if proxy = [] then r.http = [] else HttpAnswer r.http) ∧ SocksAnswer socks r.socks

/-! ### The end of an HTTP header -/

/-- The header of a response ends behind `k` bytes, and the program can tell: it has room for it,
and the last two lines end alike, without a NUL before; or it ends just with the buffer. -/
structure HeaderKnown (stream : List Byte) (k : ℕ) : Prop where
  le : k ≤ stream.length
  answer : HttpAnswer (stream.take k)
  fits : k ≤ 1023
  seen : k = 1023 ∨ 0 ∉ stream.take k ∧ (str "\r\n\r\n" <:+ stream.take k ∨ str "\n\n" <:+ stream.take k)

variable {stream read rest b : List Byte} {k : ℕ}

theorem endsHeader_of_crlf (h : str "\r\n\r\n" <:+ b) : EndsHeader b :=
  .inr ((show str "\n\r\n" <:+ str "\r\n\r\n" from ⟨[13], rfl⟩).trans h)

/-- A pattern in a list is at its end, or in the list without its last byte. -/
theorem infix_cases {p : List Byte} (h : p <:+: b) : p <:+ b ∨ p <:+: b.dropLast := by
  obtain ⟨s, t, rfl⟩ := h
  rcases List.eq_nil_or_concat t with rfl | ⟨t, c, rfl⟩
  · exact .inl ⟨s, by simp⟩
  · right
    refine ⟨s, t, ?_⟩
    rw [List.concat_eq_append, ← List.append_assoc, List.dropLast_concat]

theorem cstr_initial (b : List Byte) : cstr b <+: b := List.takeWhile_prefix _

theorem cstr_clean (h : 0 ∉ b) : cstr b = b := by
  apply cstr_eq_self
  rintro c hc rfl
  exact h hc

theorem cstr_take_cstr (b : List Byte) : cstr (b.take (cstr b).length) = cstr b := by
  rw [← List.prefix_iff_eq_take.mp (cstr_initial b)]
  exact List.takeWhile_eq_self_iff.mpr fun c hc => List.mem_takeWhile_imp (p := fun c => c != 0) hc

theorem cstr_lt (h : 0 ∈ b) : (cstr b).length < b.length := by
  by_contra hge
  have heq : cstr b = b := (cstr_initial b).eq_of_length_le (by omega)
  exact absurd (List.takeWhile_eq_self_iff.mp heq 0 h) (by decide)

/-- A pattern that showed in a shorter beginning would have stopped the loop there. -/
theorem httpEnough_earlier (hread : ReadsTo httpEnough stream read rest) (hk : k < read.length)
    {p : List Byte} (hp : p = str "\r\n\r\n" ∨ p = str "\n\n") : ¬ p <:+: cstr (read.take k) := by
  intro hin
  by_cases hzero : k = 0
  · rw [hzero, List.take_zero] at hin
    have hnil : p = [] := List.infix_nil.mp hin
    rcases hp with rfl | rfl <;> exact absurd hnil (by decide)
  · have hbegins : stream.take k = read.take k := by
      rw [hread.split, List.take_append_of_le_length hk.le]
    have hleast := hread.least k (by omega) hk
    rw [hbegins, httpEnough] at hleast
    simp only [Bool.or_eq_false_iff, decide_eq_false_iff_not] at hleast
    rcases hp with rfl | rfl
    · exact hleast.1.2 hin
    · exact hleast.2 hin

/-- A loop that stops before its buffer is full has seen the end of a header just now, and no NUL. -/
theorem httpEnough_least (hread : ReadsTo httpEnough stream read rest) (hlt : read.length < 1023) :
    0 ∉ read ∧ (str "\r\n\r\n" <:+ read ∨ str "\n\n" <:+ read) := by
  have hstops := hread.stops
  rw [httpEnough] at hstops
  simp only [Bool.or_eq_true, decide_eq_true_eq] at hstops
  have hpat : ∃ p, (p = str "\r\n\r\n" ∨ p = str "\n\n") ∧ p <:+: cstr read := by
    rcases hstops with (hfull | hcrlf) | hlf
    · omega
    · exact ⟨_, .inl rfl, hcrlf⟩
    · exact ⟨_, .inr rfl, hlf⟩
  obtain ⟨p, hp, hin⟩ := hpat
  have hnul : 0 ∉ read := by
    intro hmem
    exact httpEnough_earlier hread (cstr_lt hmem) hp ((cstr_take_cstr read).symm ▸ hin)
  refine ⟨hnul, ?_⟩
  rw [cstr_clean hnul] at hin
  rcases infix_cases hin with hsuffix | hearlier
  · rcases hp with rfl | rfl
    · exact .inl hsuffix
    · exact .inr hsuffix
  · have hpos : 0 < read.length := List.length_pos_iff.mpr hread.ne_nil
    rw [List.dropLast_eq_take] at hearlier
    have hnul' : 0 ∉ read.take (read.length - 1) := fun h => hnul (List.mem_of_mem_take h)
    exact absurd ((cstr_clean hnul').symm ▸ hearlier) (httpEnough_earlier hread (by omega) hp)

theorem httpEnough_length (hread : ReadsTo httpEnough stream read rest) : read.length ≤ 1023 := by
  by_contra hlt
  have hleast := hread.least 1023 (by decide) (by omega)
  rw [httpEnough] at hleast
  have hlen : (stream.take 1023).length = 1023 := by
    rw [hread.split, List.length_take, List.length_append]
    omega
  simp [hlen] at hleast

/-- A header that the program can tell is what it reads. -/
theorem HeaderKnown.read_eq (h : HeaderKnown stream k) (hread : ReadsTo httpEnough stream read rest) :
    read = stream.take k := by
  have htake : read = stream.take read.length := by
    rw [hread.split, List.take_left]
  have hpos : 0 < read.length := List.length_pos_iff.mpr hread.ne_nil
  have hkpos : 0 < k := by
    by_contra hzero
    have hnil : stream.take k = [] := by
      rw [show k = 0 by omega, List.take_zero]
    have hends := h.answer.1
    rw [hnil] at hends
    rcases hends with hs | hs <;> exact absurd (List.suffix_nil.mp hs) (by decide)
  have hklen : (stream.take k).length = k := by
    rw [List.length_take]
    exact min_eq_left h.le
  -- the end of the header stops the loop
  have hstop : httpEnough (stream.take k) = true := by
    rw [httpEnough]
    simp only [Bool.or_eq_true, decide_eq_true_eq]
    rcases h.seen with hfull | ⟨hnul, hcrlf | hlf⟩
    · exact .inl (.inl (by omega))
    · exact .inl (.inr ((cstr_clean hnul).symm ▸ hcrlf.isInfix))
    · exact .inr ((cstr_clean hnul).symm ▸ hlf.isInfix)
  have hle : read.length ≤ k := by
    by_contra hlt
    have hleast := hread.least k hkpos (by omega)
    rw [hstop] at hleast
    exact absurd hleast (by decide)
  rcases Nat.lt_or_ge read.length k with hlt | hge
  · have hsmall := h.fits
    obtain ⟨-, hends⟩ := httpEnough_least hread (by omega)
    have hearly : EndsHeader read := by
      rcases hends with hcrlf | hlf
      · exact endsHeader_of_crlf hcrlf
      · exact .inl hlf
    have hno := h.answer.2 read.length (by omega)
    rw [List.take_take, min_eq_left hlt.le, ← htake] at hno
    exact absurd hearly hno
  · rw [htake, show read.length = k by omega]

/-- What is read is the response exactly if the program can tell its end. -/
theorem httpAnswer_iff (hread : ReadsTo httpEnough stream read rest) :
    HttpAnswer read ↔ ∃ k, HeaderKnown stream k := by
  have htake : stream.take read.length = read := by
    rw [hread.split, List.take_left]
  constructor
  · intro h
    refine ⟨read.length, ?_, htake.symm ▸ h, httpEnough_length hread, ?_⟩
    · rw [hread.split, List.length_append]
      omega
    · rw [htake]
      by_cases hfull : read.length = 1023
      · exact .inl hfull
      · have hle := httpEnough_length hread
        exact .inr (httpEnough_least hread (by omega))
  · rintro ⟨k, h⟩
    rw [h.read_eq hread]
    exact h.answer

variable {buf t r : List Byte} {n m : ℕ} {arrived : ℕ → ℕ}

/-! ### SOCKS4 -/

/-- The first replies of eight bytes are rejections. -/
def Rejected (b : List Byte) (m : ℕ) : Prop := ∀ j < m, b[8 * j]? = some (0 : Byte) ∧
    b[8 * j + 1]? ≠ some (90 : Byte)

theorem eight_read (hread : ReadsTo (fun buf => decide (buf.length ≥ 8)) stream read rest) :
    read.length = 8 := by
  have hge : 8 ≤ read.length := of_decide_eq_true hread.stops
  by_contra hne
  have hleast := of_decide_eq_false (hread.least 8 (by decide) (by omega))
  rw [hread.split, List.length_take, List.length_append] at hleast
  omega

/-- A block of eight bytes in front shifts the replies by one. -/
theorem reply_shift (hbuf : buf.length = 8) (t : List Byte) (j i : ℕ) :
    (buf ++ t)[8 * (j + 1) + i]? = t[8 * j + i]? := by
  rw [List.getElem?_append_right (by omega)]
  congr 1
  omega

theorem rejected_cons (hbuf : buf.length = 8) (h0 : buf[0]? = some 0) (h1 : buf[1]? ≠ some 90)
    (h : Rejected t m) :
    Rejected (buf ++ t) (m + 1) := by
  intro j hj
  cases j with
  | zero =>
    rw [Nat.mul_zero, List.getElem?_append_left (by omega), List.getElem?_append_left (by omega)]
    exact ⟨h0, h1⟩
  | succ j =>
    have hshift := reply_shift hbuf t j
    obtain ⟨hzero, hone⟩ := h j (by omega)
    exact ⟨(hshift 0).trans hzero, fun h => hone ((hshift 1).symm.trans h)⟩

/-- The replies that have been read: one is a grant, or all are rejections. -/
theorem socks4_spec : ∀ (n : ℕ) (read stream r rest : List Byte), socks4 n read stream = some (r, rest) →
    ∃ t, r = read ++ t ∧ stream = t ++ rest ∧
      ((∃ m < n, t.length = 8 * (m + 1) ∧ Rejected t m ∧ t[8 * m]? = some (0 : Byte) ∧ t[8 * m + 1]? = some (90 : Byte)) ∨
        t.length = 8 * n ∧ Rejected t n) := by
  intro n
  induction n with
  | zero =>
    intro read stream r rest h
    obtain ⟨rfl, rfl⟩ := Prod.mk.inj (Option.some.inj h)
    exact ⟨[], by simp, rfl, .inr ⟨rfl, fun j hj => absurd hj (by omega)⟩⟩
  | succ n ih =>
    intro read stream r rest h
    rw [socks4] at h
    obtain ⟨⟨buf, rest'⟩, hbuf, h⟩ := Option.bind_eq_some_iff.mp h
    obtain ⟨buf, rfl, hread⟩ := readUntil_spec _ _ _ _ _ hbuf
    have hlen : buf.length = 8 := eight_read hread
    simp only at h
    by_cases h0 : buf[0]? ≠ some 0
    · rw [if_pos h0] at h
      exact absurd h (by simp)
    rw [if_neg h0] at h
    rw [not_not] at h0
    by_cases h1 : buf[1]? ≠ some 90
    · rw [if_pos h1] at h
      obtain ⟨t, rfl, hsplit, ht⟩ := ih _ _ _ _ h
      refine ⟨buf ++ t, by rw [List.append_assoc], by rw [hread.split, hsplit, List.append_assoc], ?_⟩
      have hshift := reply_shift hlen t
      rcases ht with ⟨m, hm, htlen, hrej, hzero, hgrant⟩ | ⟨htlen, hrej⟩
      · refine .inl ⟨m + 1, by omega, by rw [List.length_append]; omega,
          rejected_cons hlen h0 h1 hrej, ?_, ?_⟩
        · exact (hshift m 0).trans hzero
        · exact (hshift m 1).trans hgrant
      · exact .inr ⟨by rw [List.length_append]; omega, rejected_cons hlen h0 h1 hrej⟩
    · rw [if_neg h1] at h
      rw [not_not] at h1
      obtain ⟨rfl, rfl⟩ := Prod.mk.inj (Option.some.inj h)
      exact ⟨buf, rfl, hread.split, .inl ⟨0, by omega, hlen, fun j hj => absurd hj (by omega), h0, h1⟩⟩

/-- One of the first replies is a grant. -/
def Granted (n : ℕ) (stream : List Byte) : Prop := ∃ j < n, stream[8 * j + 1]? = some (90 : Byte)

theorem socks4_iff (h : socks4 n [] stream = some (r, rest)) :
    stream = r ++ rest ∧ (Socks4Answer r ↔ Granted n stream) := by
  obtain ⟨t, ht, hsplit, hcases⟩ := socks4_spec n [] stream r rest h
  rw [List.nil_append] at ht
  subst ht
  refine ⟨hsplit, ?_⟩
  have hat {i : ℕ} (hi : i < r.length) : stream[i]? = r[i]? := by
    rw [hsplit, List.getElem?_append_left hi]
  rcases hcases with ⟨m, hm, hlen, hrej, hzero, hgrant⟩ | ⟨hlen, hrej⟩
  · refine iff_of_true ⟨m, hlen, fun j hj => ?_⟩ ⟨m, hm, (hat (by omega)).trans hgrant⟩
    rcases Nat.lt_or_ge j m with hlt | hge
    · obtain ⟨hj0, hj1⟩ := hrej j hlt
      exact ⟨hj0, iff_of_false hj1 (by omega)⟩
    · obtain rfl : j = m := by omega
      exact ⟨hzero, iff_of_true hgrant rfl⟩
  · refine iff_of_false ?_ ?_
    · rintro ⟨m, hlen', hall⟩
      exact (hrej m (by omega)).2 ((hall m le_rfl).2.mpr rfl)
    · rintro ⟨j, hj, hgrant⟩
      exact (hrej j hj).2 ((hat (by omega)).symm.trans hgrant)

/-! ### SOCKS5 -/

/-- The type of the address is one of the three that have a length. -/
def KnownType (reply : List Byte) : Prop :=
  reply[3]? = some (1 : Byte) ∨ reply[3]? = some (3 : Byte) ∨ reply[3]? = some (4 : Byte)

theorem replyLength_isSome (reply : List Byte) : (replyLength reply).isSome ↔ KnownType reply := by
  unfold replyLength KnownType
  split <;> simp_all

theorem replyLength_ge {l : ℕ} (h : replyLength b = some l) : 7 ≤ l := by
  unfold replyLength at h
  split at h
  all_goals
    simp only [Option.some.injEq, reduceCtorEq] at h
    try omega

/-- A reply is enough with its length. -/
theorem socks5Enough_iff (h0 : b[0]? = some 5) (hlen : 7 ≤ b.length) {l : ℕ} (hl : replyLength b = some l) :
    socks5Enough b = true ↔ l ≤ b.length := by
  unfold replyLength at hl
  split at hl
  all_goals
    simp only [Option.some.injEq, reduceCtorEq] at hl
    try
      subst hl
      simp [socks5Enough, *]

/-- A complete reply has been read if its type is known, and seven bytes else. -/
theorem socks5_read (hread : ReadsTo socks5Enough stream read rest) (h0 : read[0]? = some 5) :
    7 ≤ read.length ∧ (replyLength read = some read.length ↔ KnownType read) := by
  have hge : 7 ≤ read.length := by
    have hstops := hread.stops
    simp only [socks5Enough, Bool.and_eq_true, decide_eq_true_eq] at hstops
    exact hstops.1
  refine ⟨hge, ?_⟩
  rw [← replyLength_isSome]
  constructor
  · intro h
    rw [h]
    rfl
  · intro h
    obtain ⟨l, hl⟩ := Option.isSome_iff_exists.mp h
    have hle : l ≤ read.length := (socks5Enough_iff h0 hge hl).mp hread.stops
    have hl7 := replyLength_ge hl
    rw [hl]
    by_contra hne
    have hlt : l < read.length := by
      have hne' : l ≠ read.length := fun heq => hne (congrArg some heq)
      omega
    have htake : stream.take l = read.take l := by
      rw [hread.split, List.take_append_of_le_length hle]
    have hleast := hread.least l (by omega) hlt
    rw [htake] at hleast
    have hlen : (read.take l).length = l := by
      rw [List.length_take]
      exact min_eq_left hle
    have hl' : replyLength (read.take l) = some l := by
      unfold replyLength at hl ⊢
      rw [List.getElem?_take_of_lt (by omega), List.getD_eq_getElem?_getD,
        List.getElem?_take_of_lt (by omega),
        ← List.getD_eq_getElem?_getD]
      exact hl
    have henough := (socks5Enough_iff (by rw [List.getElem?_take_of_lt (by omega)]; exact h0) (by omega) hl').mpr (by omega)
    rw [hleast] at henough
    exact absurd henough (by decide)

theorem recv2_two {a c : Byte} (h : recv2 k stream = ([a, c], rest)) : stream = a :: c :: rest := by
  obtain ⟨htake, hdrop⟩ := Prod.mk.inj h
  rw [← List.take_append_drop (min 2 k) stream, htake, hdrop]
  rfl

/-- The place of the reply behind the method and the authentication. -/
def replyStart (stream : List Byte) : ℕ := if stream[1]? = some (2 : Byte) then 4 else 2

theorem socks5Reply_iff {pre : List Byte} (h : socks5Reply pre stream = some (r, rest)) :
    ∃ reply, r = pre ++ reply ∧ stream = reply ++ rest ∧ reply[0]? = some 5 ∧ reply[1]? = some 0 ∧
      (replyLength reply = some reply.length ↔ KnownType stream) := by
  obtain ⟨⟨buf, rest'⟩, hbuf, h⟩ := Option.bind_eq_some_iff.mp h
  obtain ⟨buf, rfl, hread⟩ := readUntil_spec _ _ _ _ _ hbuf
  simp only [List.nil_append] at h hread
  split_ifs at h with hok
  obtain ⟨rfl, rfl⟩ := Prod.mk.inj (Option.some.inj h)
  obtain ⟨hlen, hiff⟩ := socks5_read hread hok.1
  refine ⟨buf, rfl, hread.split, hok.1, hok.2, ?_⟩
  rw [hiff, KnownType, KnownType, hread.split, List.getElem?_append_left (by omega)]

/-- A SOCKS5 answer begins with the method and what belongs to it. -/
theorem socks5Answer_iff {v method : Byte} {reply : List Byte} (auth : List Byte)
    (hauth : auth.length = if method = 2 then 2 else 0)
    (h0 : reply[0]? = some 5) (h1 : reply[1]? = some 0) :
    Socks5Answer (v :: method :: (auth ++ reply)) ↔ replyLength reply = some reply.length := by
  constructor
  · rintro ⟨v', method', auth', reply', heq, hauth', -, -, hlen⟩
    obtain ⟨-, htail⟩ := List.cons.inj heq
    obtain ⟨hm, hrest⟩ := List.cons.inj htail
    subst hm
    obtain ⟨-, rfl⟩ := List.append_inj hrest (hauth.trans hauth'.symm)
    exact hlen
  · intro hlen
    exact ⟨v, method, auth, reply, rfl, hauth, h0, h1, hlen⟩

theorem socks5_iff (h : socks5 arrived stream = some (r, rest)) :
    stream = r ++ rest ∧ (Socks5Answer r ↔ KnownType (stream.drop (replyStart stream))) := by
  unfold socks5 at h
  split at h
  · next v method rest1 hmethod =>
    have hsplit := recv2_two hmethod
    by_cases hm : method = 2
    · rw [if_pos hm] at h
      split at h
      · next v' rest2 hauth =>
        have hsplit2 := recv2_two hauth
        obtain ⟨reply, rfl, hreply, h0, h1, hiff⟩ := socks5Reply_iff h
        have hstart : stream.drop (replyStart stream) = rest2 := by
          rw [hsplit, hsplit2, replyStart, if_pos (by rw [hm]; rfl)]
          rfl
        refine ⟨by rw [hsplit, hsplit2, hreply]; rfl, ?_⟩
        rw [hstart, ← hiff]
        exact socks5Answer_iff [v', 0] (by rw [if_pos hm]; rfl) h0 h1
      · exact absurd h (by simp)
    · rw [if_neg hm] at h
      split_ifs at h
      obtain ⟨reply, rfl, hreply, h0, h1, hiff⟩ := socks5Reply_iff h
      have hstart : stream.drop (replyStart stream) = rest1 := by
        rw [hsplit, replyStart, if_neg (by simpa using hm)]
        rfl
      refine ⟨by rw [hsplit, hreply]; rfl, ?_⟩
      rw [hstart, ← hiff]
      exact socks5Answer_iff [] (by rw [if_neg hm]; rfl) h0 h1
  · exact absurd h (by simp)

/-! ### The proxies together -/

theorem HeaderKnown.drop_eq (h : HeaderKnown stream k) (hread : ReadsTo httpEnough stream read rest) :
    stream.drop k = rest := by
  have happend := List.take_append_drop k stream
  rw [← h.read_eq hread, hread.split] at happend
  rw [hread.split]
  exact List.append_cancel_left happend

/-- What has to be true of the bytes of the SOCKS proxy. -/
def SocksKnown (env : ProxyEnv) (socks : Str) (stream : List Byte) : Prop :=
  socks ≠ [] → if 47 ∈ socks.take 1023 then KnownType (stream.drop (replyStart stream))
    else Granted (env.more.getD 0 + 1) stream

theorem socksPart_iff {env : ProxyEnv} {socks : Str} (h : socksPart env socks stream = some (r, rest)) :
    stream = r ++ rest ∧ (SocksAnswer socks r ↔ SocksKnown env socks stream) := by
  unfold socksPart at h
  unfold SocksAnswer SocksKnown
  by_cases hsocks : socks = []
  · rw [if_pos hsocks] at h ⊢
    obtain ⟨rfl, rfl⟩ := Prod.mk.inj (Option.some.inj h)
    exact ⟨rfl, iff_of_true rfl fun hne => absurd hsocks hne⟩
  · rw [if_neg hsocks] at h ⊢
    cases hmore : env.more with
    | none =>
      rw [hmore] at h
      exact absurd h (by simp)
    | some n =>
      rw [hmore] at h
      dsimp only at h
      rw [Option.getD_some, forall_prop_of_true hsocks]
      split_ifs at h ⊢ with hslash
      · exact socks5_iff h
      · exact socks4_iff h

/-- The bytes of the proxies are such that the program can tell their answers: the header is one
whose end it knows, and the SOCKS reply grants the request, with a known type of address. -/
def AnswersKnown (env : ProxyEnv) (proxy socks : Str) (stream : List Byte) : Prop :=
  if proxy = [] then SocksKnown env socks stream
  else ∃ k, HeaderKnown stream k ∧ SocksKnown env socks (stream.drop k)

/-- When `h_connect` succeeds it has read just the answers of the proxies, if and only if it can
tell them. -/
theorem proxy_answers_read {env : ProxyEnv} {proxy socks : Str} {r : ProxyRead}
    (h : hConnect env proxy socks stream = some r) :
    stream = r.http ++ (r.socks ++ r.rest) ∧ (ReadExactly proxy socks r ↔ AnswersKnown env proxy socks stream) := by
  unfold hConnect at h
  unfold ReadExactly AnswersKnown
  by_cases hproxy : proxy = []
  · rw [if_pos hproxy] at h
    obtain ⟨⟨read, rest⟩, hpart, rfl⟩ := Option.map_eq_some_iff.mp h
    obtain ⟨hsplit, hiff⟩ := socksPart_iff hpart
    refine ⟨hsplit, ?_⟩
    rw [if_pos hproxy, if_pos hproxy]
    exact (and_iff_right rfl).trans hiff
  · rw [if_neg hproxy] at h
    split_ifs at h
    obtain ⟨⟨http, rest⟩, hhttp, h⟩ := Option.bind_eq_some_iff.mp h
    obtain ⟨⟨read, rest'⟩, hpart, rfl⟩ := Option.map_eq_some_iff.mp h
    obtain ⟨hsplit, hiff⟩ := socksPart_iff hpart
    obtain ⟨⟨buf, rest''⟩, hbuf, hok⟩ := Option.bind_eq_some_iff.mp hhttp
    obtain ⟨buf, rfl, hread⟩ := readUntil_spec _ _ _ _ _ hbuf
    simp only [List.nil_append] at hok hread
    split_ifs at hok
    obtain ⟨rfl, rfl⟩ := Prod.mk.inj (Option.some.inj hok)
    refine ⟨by rw [hread.split, hsplit], ?_⟩
    rw [if_neg hproxy, if_neg hproxy]
    dsimp only
    rw [httpAnswer_iff hread, hiff]
    constructor
    · rintro ⟨⟨k, hk⟩, hsocks⟩
      exact ⟨k, hk, (hk.drop_eq hread).symm ▸ hsocks⟩
    · rintro ⟨k, hk, hsocks⟩
      exact ⟨⟨k, hk⟩, hk.drop_eq hread ▸ hsocks⟩

/-- The header ends with a blank line, but the program reads on until two lines end alike; and the
rejection of a SOCKS4 server, which closes the connection then, counts as a success. -/
theorem proxy_answers_missed :
    hConnect {} (str "proxy:3128") [] (str "HTTP/1.0 200 OK\n\r\nOPT\n\nNUL") =
      some ⟨str "HTTP/1.0 200 OK\n\r\nOPT\n\n", [], str "NUL"⟩ ∧
    ¬ HttpAnswer (str "HTTP/1.0 200 OK\n\r\nOPT\n\n") ∧
    hConnect {} [] (str "socks:1080") [0, 91, 0, 0, 0, 0, 0, 0] = some ⟨[], [0, 91, 0, 0, 0, 0, 0, 0], []⟩ := by
  refine ⟨by decide +kernel, ?_, by decide +kernel⟩
  rintro ⟨-, hno⟩
  exact hno 18 (by decide) (.inr (by decide))

/-- An answer that the program can tell. -/
def plainAnswer : List Byte := str "HTTP/1.0 200 OK\r\n\r\n" ++ [5, 0, 5, 0, 0, 1, 10, 0, 0, 1, 0, 80]

/-- Behind the answers of both proxies the stream begins. -/
theorem plain_answer_read :
    ReadExactly (str "proxy:3128") (str "socks:1080/") ⟨str "HTTP/1.0 200 OK\r\n\r\n", [5, 0, 5, 0, 0, 1, 10, 0, 0, 1, 0, 80], [0, 1]⟩ := by
  have hread : hConnect {} (str "proxy:3128") (str "socks:1080/") (plainAnswer ++ [0, 1]) =
      some ⟨str "HTTP/1.0 200 OK\r\n\r\n", [5, 0, 5, 0, 0, 1, 10, 0, 0, 1, 0, 80], [0, 1]⟩ := by decide +kernel
  refine (proxy_answers_read hread).2.mpr ?_
  unfold AnswersKnown
  rw [if_neg (by decide)]
  refine ⟨19, ⟨by decide, ⟨.inr (by decide), ?_⟩, by decide, .inr (by decide)⟩, ?_⟩
  · unfold EndsHeader
    decide +kernel
  · intro _
    rw [if_pos (by decide)]
    exact .inl (by decide +kernel)

end Binkd
