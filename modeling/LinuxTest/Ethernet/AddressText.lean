import LinuxTest.Ethernet.IPAddress
import LinuxTest.Foundations.EarlyExit

/-!
# Texts of internet addresses

What the constructors of `IPAddress` make of a text, and whether the text that `tostring` prints is
read back. The constructors count the pieces that a loop of `getline` finds between the `@`
characters. That loop does not report an empty piece at the end, and the pieces themselves are not
looked at. The port is read twice: by the resolver, and by `atoi`, whose result is the one that
stays.

## Main definitions

* `newWithFamily`: the constructor from a text and a family
* `Specifies`: the texts `host` and `host@port`
* `Resolves`, `Rejects`: what the constructors do with a text
* `Parsed`: a text is resolved as the host and the port it specifies, or rejected

## Main results

* `split_append_cons`: the pieces of a text, from the first delimiter on
* `parsed_iff`: which texts are parsed
* `new_tostring`: the text of an address is read back
* `getport_new_iff`: when the port is the one the resolver found
-/

namespace LinuxTest.Ethernet.IPAddress

open Foundations

/-- The constructor from a text and a family. -/
def newWithFamily (net : Network) (ipaddrstr : CString) (af : ℕ) : Except Stop Sockaddr :=
  match split ipaddrstr '@' with
  | [ipaddr, port] => resolve net (some ipaddr) port af
  | [ipaddr] => resolve net (some ipaddr) ['0'] af
  | _ => .error .badFormat

/-- The texts `host`, with port `0`, and `host@port`. -/
def Specifies (s host port : CString) : Prop :=
  host ≠ [] ∧ '@' ∉ host ∧
    (s = host ∧ port = ['0'] ∨ port ≠ [] ∧ '@' ∉ port ∧ s = host ++ '@' :: port)

/-- The constructors hand a host and a port to the resolver. -/
def Resolves (s host port : CString) : Prop :=
  ∀ net, new net s = resolve net (some host) port afUnspec ∧
    ∀ af, newWithFamily net s af = resolve net (some host) port af

/-- The constructors throw their exception. -/
def Rejects (s : CString) : Prop :=
  ∀ net, new net s = .error .badFormat ∧ ∀ af, newWithFamily net s af = .error .badFormat

/-- A text is resolved as the host and the port it specifies, and rejected if there are none. -/
def Parsed (s : CString) : Prop :=
  (∀ host port, Specifies s host port → Resolves s host port) ∧
    ((¬ ∃ host port, Specifies s host port) → Rejects s)

/-! ## The pieces of a text -/

section Split

variable {delim : Char} {p s : CString}

theorem splitFrom_append (hp : delim ∉ p) (item : CString) :
    splitFrom delim item (p ++ s) = splitFrom delim (item ++ p) s := by
  induction p generalizing item with
  | nil => rw [List.nil_append, List.append_nil]
  | cons c p ih =>
    rw [List.mem_cons, not_or] at hp
    obtain ⟨hc, hp⟩ := hp
    rw [List.cons_append, splitFrom, if_neg (Ne.symm hc), ih hp, List.append_assoc]
    rfl

/-- **The first piece** ends at the first delimiter. -/
theorem split_append_cons (hp : delim ∉ p) (s : CString) :
    split (p ++ delim :: s) delim = p :: split s delim := by
  rw [split, splitFrom_append hp, splitFrom, if_pos rfl]
  rfl

theorem split_of_notMem (hs : delim ∉ s) (hne : s ≠ []) : split s delim = [s] := by
  have happend := splitFrom_append hs (s := []) []
  rw [List.append_nil, List.nil_append] at happend
  rw [split, happend, splitFrom, if_neg hne]

theorem split_eq_nil_iff : split s delim = [] ↔ s = [] := by
  constructor
  · intro h
    by_contra hne
    by_cases hmem : delim ∈ s
    · obtain ⟨p, t, rfl, hp⟩ := List.eq_append_cons_of_mem hmem
      rw [split_append_cons hp] at h
      cases h
    · rw [split_of_notMem hmem hne] at h
      cases h
  · rintro rfl
    rfl

end Split

/-! ## What the constructors do with the pieces -/

section Pieces

variable {s host port : CString}

theorem resolves_of_one (h : split s '@' = [host]) : Resolves s host ['0'] := by
  intro net
  refine ⟨?_, fun af => ?_⟩
  · rw [new, h]
  · rw [newWithFamily, h]

theorem resolves_of_two (h : split s '@' = [host, port]) : Resolves s host port := by
  intro net
  refine ⟨?_, fun af => ?_⟩
  · rw [new, h]
  · rw [newWithFamily, h]

theorem rejects_nil : Rejects [] := fun _ => ⟨rfl, fun _ => rfl⟩

theorem rejects_of_three {a b c : CString} {rest : List CString}
    (h : split s '@' = a :: b :: c :: rest) : Rejects s := by
  intro net
  refine ⟨?_, fun af => ?_⟩
  · rw [new, h]
  · rw [newWithFamily, h]

/-- A text that goes to the resolver is not rejected: the constructor returns if the resolver
fails. -/
theorem Resolves.not_rejects (h : Resolves s host port) : ¬ Rejects s := by
  intro hreject
  -- Take a resolver that finds nothing: it leaves the storage zero, without an exception.
  let net : Network := ⟨fun _ _ _ => none, fun _ _ => []⟩
  have hnew := (h net).1.symm.trans (hreject net).1
  cases hnew

theorem Specifies.resolves (h : Specifies s host port) : Resolves s host port := by
  obtain ⟨hne, hat, ⟨rfl, rfl⟩ | ⟨hpne, hpat, rfl⟩⟩ := h
  · exact resolves_of_one (split_of_notMem hat hne)
  · refine resolves_of_two ?_
    rw [split_append_cons hat, split_of_notMem hpat hpne]

theorem parsed_of_specifies (h : Specifies s host port) : Parsed s :=
  ⟨fun _ _ h' => h'.resolves, fun hnone => absurd ⟨host, port, h⟩ hnone⟩

theorem parsed_of_rejects (h : Rejects s) : Parsed s :=
  ⟨fun _ _ h' => h'.resolves, fun _ => h⟩

theorem Resolves.not_parsed (h : Resolves s host port)
    (hnone : ¬ ∃ host port, Specifies s host port) : ¬ Parsed s :=
  fun hparsed => h.not_rejects (hparsed.2 hnone)

/-- What a text with an `@` specifies stands before and after its first one. -/
theorem specifies_append_cons_iff {p t : CString} (hp : '@' ∉ p) :
    (∃ host port, Specifies (p ++ '@' :: t) host port) ↔ p ≠ [] ∧ t ≠ [] ∧ '@' ∉ t := by
  constructor
  · rintro ⟨host, port, hne, hat, ⟨h, -⟩ | ⟨hpne, hpat, h⟩⟩
    · exact absurd (h ▸ List.mem_append_right p List.mem_cons_self) hat
    · -- Both sides have the same first piece.
      have hpieces := congrArg (fun s => split s '@') h
      simp only [split_append_cons hp, split_append_cons hat] at hpieces
      obtain rfl := (List.cons.inj hpieces).1
      obtain rfl := (List.cons.inj (List.append_cancel_left h)).2
      exact ⟨hne, hpne, hpat⟩
  · rintro ⟨hpne, htne, htat⟩
    exact ⟨p, t, hpne, hp, .inr ⟨htne, htat, rfl⟩⟩

/-- The texts between two `@` characters and after them: the constructors reject them, unless
nothing follows the second. -/
theorem parsed_append_cons_iff {p q u : CString} (hp : '@' ∉ p) (hq : '@' ∉ q) :
    Parsed (p ++ '@' :: (q ++ '@' :: u)) ↔ u ≠ [] := by
  have hsplit : split (p ++ '@' :: (q ++ '@' :: u)) '@' = p :: q :: split u '@' := by
    rw [split_append_cons hp, split_append_cons hq]
  constructor
  · rintro hparsed rfl
    refine (resolves_of_two hsplit).not_parsed ?_ hparsed
    rw [specifies_append_cons_iff hp]
    rintro ⟨-, -, hat⟩
    exact hat (List.mem_append_right q List.mem_cons_self)
  · intro hne
    cases hu : split u '@' with
    | nil => exact absurd (split_eq_nil_iff.mp hu) hne
    | cons c rest =>
      -- Something follows the second `@`, so there is a third piece.
      rw [hu] at hsplit
      exact parsed_of_rejects (rejects_of_three hsplit)

/-- A text with one `@`. -/
theorem parsed_of_single_iff {p t : CString} (hp : '@' ∉ p) (ht : '@' ∉ t) :
    Parsed (p ++ '@' :: t) ↔ p ≠ [] ∧ t ≠ [] := by
  have hspec := specifies_append_cons_iff (t := t) hp
  constructor
  · intro hparsed
    by_contra hempty
    have hnone : ¬ ∃ host port, Specifies (p ++ '@' :: t) host port := by
      rw [hspec]
      exact fun h => hempty ⟨h.1, h.2.1⟩
    by_cases htne : t = []
    · subst htne
      exact (resolves_of_one (split_append_cons hp [])).not_parsed hnone hparsed
    · have hsplit : split (p ++ '@' :: t) '@' = [p, t] := by
        rw [split_append_cons hp, split_of_notMem ht htne]
      exact (resolves_of_two hsplit).not_parsed hnone hparsed
  · rintro ⟨hpne, htne⟩
    obtain ⟨host, port, h⟩ := hspec.mpr ⟨hpne, htne, ht⟩
    exact parsed_of_specifies h

theorem parsed_of_notMem (hs : '@' ∉ s) : Parsed s := by
  by_cases hne : s = []
  · subst hne
    exact parsed_of_rejects rejects_nil
  · exact parsed_of_specifies ⟨hne, hs, .inl ⟨rfl, rfl⟩⟩

end Pieces

section Ends

variable {p t : CString}

theorem head?_append_cons_iff (hp : '@' ∉ p) : (p ++ '@' :: t).head? = some '@' ↔ p = [] := by
  cases p with
  | nil => simp
  | cons c p =>
    simp only [List.cons_append, List.head?_cons, Option.some_inj, reduceCtorEq, iff_false]
    exact fun h => hp (h ▸ List.mem_cons_self)

theorem count_append_cons (hp : '@' ∉ p) : (p ++ '@' :: t).count '@' = t.count '@' + 1 := by
  rw [List.count_append, List.count_eq_zero_of_not_mem hp, List.count_cons_self, Nat.zero_add]

theorem getLast?_append_cons (hne : t ≠ []) : (p ++ '@' :: t).getLast? = t.getLast? := by
  rw [List.getLast?_append, List.getLast?_cons, List.getLast?_eq_some_getLast hne]
  rfl

end Ends

/-- **Which texts are parsed**: those that end in `@` only if they have three of them, and begin with
`@` only if it is not the only one. -/
theorem parsed_iff (s : CString) :
    Parsed s ↔ (s.getLast? = some '@' → 3 ≤ s.count '@') ∧
      (s.head? = some '@' → s.count '@' ≠ 1) := by
  by_cases hs : '@' ∈ s
  · obtain ⟨p, t, rfl, hp⟩ := List.eq_append_cons_of_mem hs
    rw [count_append_cons hp, head?_append_cons_iff hp]
    by_cases ht : '@' ∈ t
    · -- At least two `@`: what matters is whether something follows the second.
      obtain ⟨q, u, rfl, hq⟩ := List.eq_append_cons_of_mem ht
      rw [count_append_cons hq, parsed_append_cons_iff hp hq, getLast?_append_cons (by simp)]
      by_cases hu : u = []
      · subst hu
        simp
      · rw [getLast?_append_cons hu]
        refine ⟨fun _ => ⟨fun hlast => ?_, fun _ => by omega⟩, fun _ => hu⟩
        have := List.count_pos_iff.mpr (List.mem_of_getLast? hlast)
        omega
    · rw [parsed_of_single_iff hp ht, List.count_eq_zero_of_not_mem ht]
      by_cases htne : t = []
      · subst htne
        simp
      · rw [getLast?_append_cons htne]
        refine ⟨fun h => ⟨fun hlast => absurd (List.mem_of_getLast? hlast) ht,
          fun hempty => absurd hempty h.1⟩, fun h => ⟨fun hempty => h.2 hempty rfl, htne⟩⟩
  · refine iff_of_true (parsed_of_notMem hs) ⟨fun hlast => ?_, fun hhead => ?_⟩
    · exact absurd (List.mem_of_getLast? hlast) hs
    · exact absurd (List.mem_of_head? hhead) hs

/-- Nothing is asked of the port of a text that ends in `@`: it goes to the resolver. -/
theorem not_parsed_trailing : ¬ Parsed "host@".toList := by
  have hiff := parsed_of_single_iff (p := "host".toList) (t := []) (by decide) (by decide)
  exact fun hparsed => (hiff.mp hparsed).2 rfl

/-! ## Addresses behind a text -/

section Ports

variable {net : Network} {x sa : Sockaddr} {host service : CString} {q : BitVec 16}

/-- The families that have a port. -/
def HasPort (s : Sockaddr) : Prop := s.family = afInet ∨ s.family = afInet6

theorem getport_of_hasPort (h : HasPort x) : getport x = .ok (htons x.port) := by
  unfold getport
  rcases h with h | h
  · rw [if_pos h]
  · split_ifs <;> rfl

theorem setport_of_hasPort (h : HasPort x) (portn : BitVec 16) :
    setport portn x = .ok { x with port := htons portn } := by
  unfold setport
  rcases h with h | h
  · rw [if_pos h]
  · split_ifs <;> rfl

theorem hasPort_of_getport (h : getport x = .ok q) : HasPort x := by
  unfold getport at h
  split_ifs at h with h4 h6
  · exact .inl h4
  · exact .inr h6

theorem tostring_of_hasPort (h : HasPort x) : tostring net x =
    .ok (net.inetNtop x.family x.addr ++ '@' :: decimal (htons x.port).toNat) := by
  rw [tostring, getport_of_hasPort h]
  rfl

/-- **The text and its terminator fit the buffer** of 128 bytes, for every text of an address that
leaves room for the port. -/
theorem length_tostring_lt {text : CString} (htext : tostring net x = .ok text)
    (hlength : (net.inetNtop x.family x.addr).length ≤ 121) : text.length < 128 := by
  obtain ⟨port, -, h⟩ := bind_eq_ok.mp htext
  cases h
  have hdigits : (Nat.toDigits 10 port.toNat).length ≤ 5 := by
    rw [Nat.length_toDigits_le_iff (by decide) (by decide)]
    have := port.isLt
    omega
  rw [decimal_natCast, List.length_append, List.length_cons]
  omega

/-- The common part of the constructors, when the resolver finds an address with a port: the port
of the text replaces the one that was found. -/
theorem resolve_of_hasPort {pip : Option CString} {af : ℕ}
    (hinfo : net.getaddrinfo pip service af = some sa) (h : HasPort sa) :
    resolve net pip service af = .ok { sa with port := htons ((atoi service).setWidth 16) } := by
  have hset := setport_of_hasPort h ((atoi service).setWidth 16)
  have hport : HasPort { sa with port := htons ((atoi service).setWidth 16) } := h
  unfold resolve
  rw [hinfo]
  dsimp only
  rw [bind_of_ok hset, bind_of_ok (tostring_of_hasPort hport)]
  rfl

theorem new_append_cons (hhost : '@' ∉ host) (hservice : '@' ∉ service) (hne : service ≠ []) :
    new net (host ++ '@' :: service) = resolve net (some host) service afUnspec := by
  rw [new, split_append_cons hhost, split_of_notMem hservice hne]

/-- **The text of an address is read back.** The object built from what `tostring` prints has the
same family, address and port, if the resolver finds the printed address with the printed port. -/
theorem new_tostring (hport : HasPort x) (hprint : '@' ∉ net.inetNtop x.family x.addr)
    (hinfo : ∃ sa, sa.family = x.family ∧ sa.addr = x.addr ∧
      net.getaddrinfo (some (net.inetNtop x.family x.addr)) (decimal (htons x.port).toNat)
        afUnspec = some sa) :
    ∃ text, tostring net x = .ok text ∧ new net text = .ok x := by
  refine ⟨_, tostring_of_hasPort hport, ?_⟩
  have hdigits : decimal (htons x.port).toNat = Nat.toDigits 10 (htons x.port).toNat :=
    decimal_natCast _
  obtain ⟨sa, hfamily, haddr, hsa⟩ := hinfo
  have hsaPort : HasPort sa := by
    unfold HasPort
    rwa [hfamily]
  rw [new_append_cons hprint (hdigits ▸ notMem_toDigits (by decide) _)
    (hdigits ▸ Nat.toDigits_ne_nil), resolve_of_hasPort hsa hsaPort]
  -- The port went through its decimal text and twice through the swap of its bytes.
  have hback : htons ((atoi (decimal (htons x.port).toNat)).setWidth 16) = x.port := by
    have hlong : (htons x.port).toNat < 2 ^ 63 := Nat.lt_trans (htons x.port).isLt (by decide)
    rw [atoi_decimal hlong, BitVec.setWidth_ofNat_of_le (by decide), BitVec.ofNat_toNat,
      BitVec.setWidth_eq, htons_htons]
  rw [hback, hfamily, haddr]

/-- The port that the constructors set: what is left of the number in 16 bits. -/
theorem toNat_port (service : CString) :
    (((atoi service).setWidth 16).toNat : ℤ) = strtol service % 2 ^ 16 := by
  have hsub : (2 : ℤ) ^ 16 ∣ 2 ^ 32 := by decide
  rw [BitVec.toNat_setWidth, atoi, Int.natCast_mod, BitVec.toNat_ofInt,
    Int.toNat_of_nonneg (Int.emod_nonneg _ (by decide))]
  exact Int.emod_emod_of_dvd (strtol service) hsub

/-- **The port is the one the resolver found** if and only if the service begins with a number that,
limited to the range of a `long`, is this port modulo `2 ^ 16`. A text that begins with no digits
has the number zero. -/
theorem getport_new_iff (hhost : '@' ∉ host) (hservice : '@' ∉ service) (hne : service ≠ [])
    (hinfo : net.getaddrinfo (some host) service afUnspec = some sa) (hq : getport sa = .ok q) :
    (∃ s, new net (host ++ '@' :: service) = .ok s ∧ getport s = .ok q) ↔
      ∃ n, Spells service n ∧ toLong n % 2 ^ 16 = q.toNat := by
  have hport := hasPort_of_getport hq
  have hback := getport_setport (setport_of_hasPort hport ((atoi service).setWidth 16))
  have hvalue : (∃ n, Spells service n ∧ toLong n % 2 ^ 16 = q.toNat) ↔
      (atoi service).setWidth 16 = q := by
    rw [← BitVec.toNat_inj, ← Nat.cast_inj (R := ℤ), toNat_port, strtol]
    simp only [spells_iff, exists_eq_left']
  rw [new_append_cons hhost hservice hne, resolve_of_hasPort hinfo hport, hvalue]
  constructor
  · rintro ⟨s, hs, hget⟩
    cases hs
    exact Except.ok.inj (hback.symm.trans hget)
  · rintro rfl
    exact ⟨_, rfl, hback⟩

end Ports

/-! ## A resolver -/

/-- The host of the tests, and the port of a service: that of `ftp`, or the number itself. -/
def testNetwork : Network where
  getaddrinfo host service _ :=
    if host ≠ some "192.188.2.3".toList then none
    else if service = "ftp".toList then some ⟨afInet, htons 21, [192, 188, 2, 3]⟩
    else if service ≠ [] ∧ service.all Char.isDigit then
      some ⟨afInet, htons (BitVec.ofNat 16 (digitsValue service)), [192, 188, 2, 3]⟩
    else none
  inetNtop _ addr := ['.'].intercalate (addr.map fun b => decimal b.toNat)

/-- The resolver returns the port that was printed. -/
theorem new_tostring_test :
    ∃ text, tostring testNetwork ⟨afInet, htons 5001, [192, 188, 2, 3]⟩ = .ok text ∧
      new testNetwork text = .ok ⟨afInet, htons 5001, [192, 188, 2, 3]⟩ :=
  new_tostring (.inl rfl) (by decide) ⟨⟨afInet, htons 5001, [192, 188, 2, 3]⟩, rfl, rfl, by decide⟩

/-- A number that is too long for a `long`: the resolver finds port 21, and 65535 is set. -/
theorem getport_new_numeric :
    (∃ s, new testNetwork ("192.188.2.3".toList ++ '@' :: "9223372036854775829".toList) = .ok s ∧
      getport s = .ok 21) ↔
    ∃ n, Spells "9223372036854775829".toList n ∧ toLong n % 2 ^ 16 = (21 : BitVec 16).toNat :=
  getport_new_iff (by decide) (by decide) (by decide)
    (show _ = some ⟨afInet, htons 21, [192, 188, 2, 3]⟩ by decide) rfl

/-- The name of a service is no number: its port is lost. -/
theorem not_getport_new_ftp :
    testNetwork.getaddrinfo (some "192.188.2.3".toList) "ftp".toList afUnspec =
        some ⟨afInet, htons 21, [192, 188, 2, 3]⟩ ∧
      getport ⟨afInet, htons 21, [192, 188, 2, 3]⟩ = .ok 21 ∧
      ¬ ∃ s, new testNetwork "192.188.2.3@ftp".toList = .ok s ∧ getport s = .ok 21 := by
  have hinfo : testNetwork.getaddrinfo (some "192.188.2.3".toList) "ftp".toList afUnspec =
      some ⟨afInet, htons 21, [192, 188, 2, 3]⟩ := by decide
  refine ⟨hinfo, rfl, ?_⟩
  have hsplit : new testNetwork ("192.188.2.3".toList ++ '@' :: "ftp".toList) =
      resolve testNetwork (some "192.188.2.3".toList) "ftp".toList afUnspec :=
    new_append_cons (by decide) (by decide) (by decide)
  have hnew := hsplit.trans (resolve_of_hasPort hinfo (.inl rfl))
  rintro ⟨s, hs, hget⟩
  cases hnew.symm.trans hs
  exact absurd hget (by decide)

end LinuxTest.Ethernet.IPAddress
