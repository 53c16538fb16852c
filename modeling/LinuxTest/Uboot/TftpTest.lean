import LinuxTest.Uboot.Creatf
import LinuxTest.Uboot.Crtinit

/-!
# The transfer test of the board

`uboot_app_main` of `preloader-uboot/tftp-test/tftp-test.c`, run after an image of the host
generator has been loaded over TFTP. It reads the size and the seed at the load address and compares
ten bytes with the draws of the generator, whatever the size. Memory is a function from 32-bit
addresses to bytes, and words in it are little-endian.

## Main definitions

* `Message`, `Message.text`: what is printed
* `check`, `ubootAppMain`: the comparison loop and the application
* `Passes`: `pass!` is printed
* `Holds mem a bs`: the bytes `bs` stand in memory from address `a` on

## Main results

* `passes_iff`: which memories pass
* `passes_of_main`: an image of the host generator of at least ten bytes passes
* `passes_iff_holds_payload`: passing is equivalent to holding the payload only for images of ten
  bytes
-/

namespace LinuxTest.Uboot.TftpTest

open Creatf (payload bytes)

/-- What the application learns from u-boot and the processor. -/
structure Board where
  serverip : Option CString
  cpuid : BitVec 32
  xfVersion : ℤ
  version : ℤ
deriving Repr, DecidableEq

/-- The memory of the board. -/
abbrev Memory := BitVec 32 → BitVec 8

/-- What the application prints, a line for each call. -/
inductive Message where
  | serverip (server : Option CString)
  | needLoadAddress
  | runtime (line : String)
  | loadAddr (a : BitVec 32)
  | fsize (n : BitVec 32)
  | seed (n : BitVec 32)
  | cpuId (n : BitVec 32)
  | expectsAbi (n : ℤ)
  | actualAbi (n : ℤ)
  | argc (n : ℕ)
  | argv (i : ℕ) (arg : Option CString)
  | fail (offs : BitVec 32) (exp actual : BitVec 8)
  | step (i : ℕ) (expch actual : BitVec 8)
  | pass
deriving Repr, DecidableEq

/-- A number printed with `%x`. -/
def hex (n : ℕ) : String := String.ofList (Nat.toDigits 16 n)

/-- A string printed with `%s`. -/
def str (s : Option CString) : String := String.ofList (s.getD "<NULL>".toList)

/-- The printed text. -/
def Message.text : Message → String
  | .serverip server => "serverip : " ++ str server ++ "\n"
  | .needLoadAddress => "need load address of tftp file image!\n"
  | .runtime line => line
  | .loadAddr a => "load addr " ++ hex a.toNat ++ "\n"
  | .fsize n => "fsize " ++ toString n.toInt ++ "\n"
  | .seed n => "seed  " ++ hex n.toNat ++ "\n"
  | .cpuId n => "CPU ID " ++ hex n.toNat ++ "\n"
  | .expectsAbi n => "Example expects ABI version " ++ toString n ++ "\n"
  | .actualAbi n => "Actual U-Boot ABI version " ++ toString n ++ "\n"
  | .argc n => "argc = " ++ toString n ++ "\n"
  | .argv i arg => "argv[" ++ toString i ++ "] = \"" ++ str arg ++ "\"\n"
  | .fail offs exp actual => "fail, offs " ++ toString offs.toInt ++ ", exp " ++ hex exp.toNat ++
      ", actual " ++ hex actual.toNat ++ "\n"
  | .step i expch actual => "i " ++ toString i ++ ", expch " ++ hex expch.toNat ++ ", actual " ++
      hex actual.toNat ++ "\n"
  | .pass => "pass!\n"

/-- The little-endian word at an address. -/
def readWord (mem : Memory) (a : BitVec 32) : BitVec 32 :=
  mem (a + 3) ++ mem (a + 2) ++ mem (a + 1) ++ mem a

/-- The comparison loop, with `n` iterations to go. -/
def check (mem : Memory) (pdata fsize : BitVec 32) : ℕ → ℕ → BitVec 32 → List Message
  | 0, _, _ => [.pass]
  | n + 1, i, rseed =>
    let expch := (myrand rseed).1.setWidth 8
    let actual := mem (pdata + BitVec.ofNat 32 i)
    if expch ≠ actual then [.fail (fsize + 8) expch actual]
    else .step i expch actual :: check mem pdata fsize n (i + 1) (myrand rseed).2

/-- The application: what it returns, and what it prints. -/
def ubootAppMain (board : Board) (mem : Memory) (argv : List CString) : ℤ × List Message :=
  match argv with
  | _ :: arg1 :: _ =>
    let loadaddr := (hex2dec arg1).1
    let pdata := loadaddr + 8
    let seed := readWord mem (loadaddr + 4)
    let fsize := readWord mem loadaddr
    (0, [.serverip board.serverip] ++ (hex2dec arg1).2.map .runtime ++
      [.loadAddr loadaddr, .fsize fsize, .seed seed, .cpuId board.cpuid,
        .expectsAbi board.xfVersion, .actualAbi board.version, .argc argv.length] ++
      -- The terminating null pointer is printed too.
      ((List.range (argv.length + 1)).map fun i => .argv i argv[i]?) ++
      check mem pdata fsize 10 0 (smyrand seed))
  | _ => (1, [.serverip board.serverip, .needLoadAddress])

/-- The application prints `pass!`. -/
def Passes (board : Board) (mem : Memory) (argv : List CString) : Prop :=
  .pass ∈ (ubootAppMain board mem argv).2

instance (board : Board) (mem : Memory) (argv : List CString) :
    Decidable (Passes board mem argv) :=
  inferInstanceAs (Decidable (_ ∈ _))

/-- The bytes `bs` stand in memory from address `a` on. -/
def Holds (mem : Memory) (a : BitVec 32) (bs : List (BitVec 8)) : Prop :=
  ∀ i b, bs[i]? = some b → mem (a + BitVec.ofNat 32 i) = b

/-- The first `n` bytes from address `a` on are those of the generator. -/
def Agrees (mem : Memory) (a seed : BitVec 32) (n : ℕ) : Prop :=
  ∀ i < n, mem (a + BitVec.ofNat 32 i) = (value seed i).setWidth 8

/-! ## Which memories pass -/

theorem pass_mem_check (mem : Memory) (pdata fsize seed : BitVec 32) (n i : ℕ) :
    .pass ∈ check mem pdata fsize n i (rseedAfter seed i) ↔
      ∀ k, i ≤ k → k < i + n → mem (pdata + BitVec.ofNat 32 k) = (value seed k).setWidth 8 := by
  induction n generalizing i with
  | zero =>
    refine iff_of_true (List.mem_singleton_self _) fun k hlo hhi => ?_
    omega
  | succ n ih =>
    have hnext : (myrand (rseedAfter seed i)).2 = rseedAfter seed (i + 1) :=
      (rseedAfter_succ seed i).symm
    by_cases heq : (value seed i).setWidth 8 = mem (pdata + BitVec.ofNat 32 i)
    · -- The bytes agree, and the loop goes on.
      have hstep : check mem pdata fsize (n + 1) i (rseedAfter seed i) =
          .step i ((value seed i).setWidth 8) (mem (pdata + BitVec.ofNat 32 i)) ::
            check mem pdata fsize n (i + 1) (rseedAfter seed (i + 1)) := by
        rw [check, hnext]
        exact if_neg (not_not_intro heq)
      rw [hstep, List.mem_cons, or_iff_right (by simp), ih]
      constructor
      · intro h k hlo hhi
        rcases Nat.eq_or_lt_of_le hlo with rfl | hlt
        · exact heq.symm
        · exact h k hlt (by omega)
      · intro h k hlo hhi
        exact h k (by omega) (by omega)
    · -- The first difference ends the run with a failure.
      have hstep : check mem pdata fsize (n + 1) i (rseedAfter seed i) =
          [.fail (fsize + 8) ((value seed i).setWidth 8) (mem (pdata + BitVec.ofNat 32 i))] := by
        rw [check]
        exact if_pos heq
      rw [hstep]
      refine iff_of_false (by simp) fun h => ?_
      exact heq (h i le_rfl (by omega)).symm

/-- **Which memories pass**: ten bytes are compared, whatever the size. -/
theorem passes_iff (board : Board) (mem : Memory) (arg0 arg1 : CString) (rest : List CString) :
    Passes board mem (arg0 :: arg1 :: rest) ↔
      Agrees mem ((hex2dec arg1).1 + 8) (readWord mem ((hex2dec arg1).1 + 4)) 10 := by
  have hcheck := pass_mem_check mem ((hex2dec arg1).1 + 8) (readWord mem (hex2dec arg1).1)
    (readWord mem ((hex2dec arg1).1 + 4)) 10 0
  have hmem : Passes board mem (arg0 :: arg1 :: rest) ↔
      .pass ∈ check mem ((hex2dec arg1).1 + 8) (readWord mem (hex2dec arg1).1) 10 0
        (rseedAfter (readWord mem ((hex2dec arg1).1 + 4)) 0) := by
    unfold Passes ubootAppMain
    simp [rseedAfter]
  rw [hmem, hcheck]
  simp [Agrees]

/-- Holding the payload is agreeing in as many bytes as the size says. -/
theorem holds_payload_iff (mem : Memory) (a seed fsize : BitVec 32) :
    Holds mem a (payload seed fsize) ↔ Agrees mem a seed fsize.toInt.toNat := by
  constructor
  · intro h i hi
    exact h i _ (Creatf.getElem?_payload seed fsize hi)
  · intro h i b hb
    have hi : i < fsize.toInt.toNat := by
      rw [← Creatf.length_payload seed fsize]
      exact (List.getElem?_eq_some_iff.mp hb).1
    rw [Creatf.getElem?_payload seed fsize hi] at hb
    exact (h i hi).trans (Option.some.inj hb)

/-! ## Images in memory -/

theorem word_bytes (w : BitVec 32) :
    ((w >>> 24).setWidth 8 ++ (w >>> 16).setWidth 8 ++ (w >>> 8).setWidth 8 ++ w.setWidth 8 :
      BitVec 32) = w := by
  apply BitVec.eq_of_getLsbD_eq
  intro i hi
  simp only [BitVec.getLsbD_append, BitVec.getLsbD_setWidth, BitVec.getLsbD_ushiftRight]
  grind

/-- The bytes of a word in memory are read back as the word. -/
theorem readWord_of_holds {mem : Memory} {a w : BitVec 32} (h : Holds mem a (bytes w)) :
    readWord mem a = w := by
  have h0 := h 0 _ rfl
  have h1 := h 1 _ rfl
  have h2 := h 2 _ rfl
  have h3 := h 3 _ rfl
  rw [BitVec.add_zero] at h0
  rw [readWord, BitVec.ofNat_eq_ofNat, BitVec.ofNat_eq_ofNat, BitVec.ofNat_eq_ofNat, h0, h1, h2, h3]
  exact word_bytes w

theorem Holds.left {mem : Memory} {a : BitVec 32} {xs ys : List (BitVec 8)}
    (h : Holds mem a (xs ++ ys)) : Holds mem a xs := by
  intro i b hb
  have hi := (List.getElem?_eq_some_iff.mp hb).1
  exact h i b (by rw [List.getElem?_append_left hi, hb])

theorem Holds.right {mem : Memory} {a : BitVec 32} {xs ys : List (BitVec 8)}
    (h : Holds mem a (xs ++ ys)) : Holds mem (a + BitVec.ofNat 32 xs.length) ys := by
  intro i b hb
  have hread := h (xs.length + i) b (by rw [List.getElem?_append_right (by omega)]; simpa using hb)
  rwa [BitVec.ofNat_add, ← BitVec.add_assoc] at hread

/-- The header words of a memory that holds an image. -/
theorem readWord_header {mem : Memory} {a fsize seed : BitVec 32}
    (h : Holds mem a (bytes fsize ++ bytes seed)) :
    readWord mem a = fsize ∧ readWord mem (a + 4) = seed :=
  ⟨readWord_of_holds h.left, readWord_of_holds h.right⟩

/-- **A transferred image passes**: a memory that holds the file of the host generator, with a
payload of at least ten bytes. -/
theorem passes_of_file (board : Board) {mem : Memory} {arg0 arg1 : CString} {rest : List CString}
    {fsize seed : BitVec 32} (hsize : 10 ≤ fsize.toInt)
    (hfile : Holds mem (hex2dec arg1).1 (bytes fsize ++ bytes seed ++ payload seed fsize)) :
    Passes board mem (arg0 :: arg1 :: rest) := by
  rw [passes_iff, (readWord_header hfile.left).2]
  have hpayload := (holds_payload_iff _ _ _ _).mp hfile.right
  exact fun i hi => hpayload i (by omega)

/-- **From the host to the board**: the file that an undisturbed run of the host generator writes,
loaded at the address given to the application, passes, if its payload has at least ten bytes. -/
theorem passes_of_main (board : Board) {host : Creatf.Host} (hwrites : host.Writes)
    {creatf seed size name : CString} {args : List CString} (hopen : host.fopen name = true)
    (hsize : 10 ≤ (atoi size).toInt) {mem : Memory} {arg0 arg1 : CString} {rest : List CString}
    (hfile : Holds mem (hex2dec arg1).1
      (Creatf.main host (creatf :: seed :: size :: name :: args)).file) :
    Passes board mem (arg0 :: arg1 :: rest) := by
  rw [Creatf.main_file hwrites hopen] at hfile
  exact passes_of_file board hsize hfile

/-- A memory with a file at its start. -/
def load (file : List (BitVec 8)) : Memory := fun a => file.getD a.toNat 0

theorem holds_load {file : List (BitVec 8)} (h : file.length ≤ 2 ^ 32) :
    Holds (load file) 0 file := by
  intro i b hb
  obtain ⟨hi, -⟩ := List.getElem?_eq_some_iff.mp hb
  have haddr : (0#32 + BitVec.ofNat 32 i).toNat = i := by
    rw [BitVec.zero_add, BitVec.toNat_ofNat, Nat.mod_eq_of_lt (Nat.lt_of_lt_of_le hi h)]
  change file.getD (0#32 + BitVec.ofNat 32 i).toNat 0 = b
  rw [haddr, List.getD_eq_getElem?_getD, hb, Option.getD_some]

/-- Twelve bytes from the seed 7, loaded at address 0. -/
theorem passes_of_main_twelve :
    Passes ⟨none, 0, 0, 0⟩ (load (Creatf.main ⟨fun _ => true, fun _ n => n, fun _ => 3,
      fun _ => some 20⟩ ["creatf".toList, ['7'], ['1', '2'], "image".toList]).file) [[], ['0']] :=
  passes_of_main _ (fun _ _ => rfl) rfl (by decide) (holds_load (by decide +kernel))

/-! ## Memories that tell the two counts apart -/

theorem not_ne_self (b : BitVec 8) : ~~~b ≠ b := by
  intro h
  have hbit := congrArg (fun x => x.getLsbD 0) h
  simp at hbit

/-- An image at address `a` of which only the first `n` payload bytes are right. -/
def corrupt (a fsize seed : BitVec 32) (n : ℕ) : Memory := fun x =>
  let offs := (x - a).toNat
  match (bytes fsize ++ bytes seed)[offs]? with
  | some b => b
  | none =>
    let rnd := (value seed (offs - 8)).setWidth 8
    if offs - 8 < n then rnd else ~~~rnd

section Corrupt

variable (a fsize seed : BitVec 32) (n : ℕ)

theorem toNat_offset {k : ℕ} (hk : k < 2 ^ 32) : (a + BitVec.ofNat 32 k - a).toNat = k := by
  rw [add_sub_cancel_left, BitVec.toNat_ofNat, Nat.mod_eq_of_lt hk]

/-- The header is that of the image. -/
theorem holds_corrupt_header : Holds (corrupt a fsize seed n) a (bytes fsize ++ bytes seed) := by
  intro i b hb
  have hi : i < 8 := by
    have := (List.getElem?_eq_some_iff.mp hb).1
    simpa [bytes] using this
  simp only [corrupt, toNat_offset a (show i < 2 ^ 32 by omega), hb]

/-- The payload bytes of the memory. -/
theorem corrupt_payload {i : ℕ} (hi : i + 8 < 2 ^ 32) :
    corrupt a fsize seed n (a + 8 + BitVec.ofNat 32 i) =
      if i < n then (value seed i).setWidth 8 else ~~~(value seed i).setWidth 8 := by
  have haddr : a + 8 + BitVec.ofNat 32 i = a + BitVec.ofNat 32 (8 + i) := by
    rw [BitVec.add_assoc, BitVec.ofNat_add]
    rfl
  have hnone : (bytes fsize ++ bytes seed)[8 + i]? = none :=
    List.getElem?_eq_none (by simp [bytes])
  simp only [corrupt, haddr, toNat_offset a (show 8 + i < 2 ^ 32 by omega), hnone,
    Nat.add_sub_cancel_left]

/-- It agrees with the generator in exactly its first `n` bytes. -/
theorem agrees_corrupt_iff {m : ℕ} (hm : m + 8 ≤ 2 ^ 32) :
    Agrees (corrupt a fsize seed n) (a + 8) seed m ↔ m ≤ n := by
  constructor
  · intro h
    by_contra hlt
    have hn := h n (by omega)
    rw [corrupt_payload a fsize seed n (by omega), if_neg (lt_irrefl n)] at hn
    exact not_ne_self _ hn
  · intro hle i hi
    rw [corrupt_payload a fsize seed n (by omega), if_pos (by omega)]

end Corrupt

/-! ## Passing against holding the payload -/

theorem Agrees.mono {mem : Memory} {a seed : BitVec 32} {m n : ℕ} (h : Agrees mem a seed n)
    (hmn : m ≤ n) : Agrees mem a seed m :=
  fun i hi => h i (by omega)

theorem agrees_iff_agrees_iff (mem : Memory) (a seed : BitVec 32) (m n : ℕ) :
    (Agrees mem a seed n ↔ Agrees mem a seed m) ↔
      (Agrees mem a seed (min m n) → Agrees mem a seed (max m n)) := by
  rcases le_total m n with hle | hle
  · rw [min_eq_left hle, max_eq_right hle]
    exact ⟨Iff.mpr, fun h => ⟨fun hn => hn.mono hle, h⟩⟩
  · rw [min_eq_right hle, max_eq_left hle]
    exact ⟨Iff.mp, fun h => ⟨h, fun hm => hm.mono hle⟩⟩

/-- The two counts, for a payload of any size and seed. -/
theorem passes_iff_payload (board : Board) (arg0 arg1 : CString) (rest : List CString)
    (fsize seed : BitVec 32) (hfsize : 0 ≤ fsize.toInt) :
    (∀ mem, readWord mem (hex2dec arg1).1 = fsize → readWord mem ((hex2dec arg1).1 + 4) = seed →
      ((Passes board mem (arg0 :: arg1 :: rest) ↔
          Holds mem ((hex2dec arg1).1 + 8) (payload seed fsize)) ↔
        (Agrees mem ((hex2dec arg1).1 + 8) seed (min fsize.toInt.toNat 10) →
          Agrees mem ((hex2dec arg1).1 + 8) seed (max fsize.toInt.toNat 10)))) ∧
    ((∀ mem, readWord mem (hex2dec arg1).1 = fsize → readWord mem ((hex2dec arg1).1 + 4) = seed →
      (Passes board mem (arg0 :: arg1 :: rest) ↔
        Holds mem ((hex2dec arg1).1 + 8) (payload seed fsize))) ↔ fsize = 10) := by
  generalize hload : (hex2dec arg1).1 = loadaddr
  have hpasses : ∀ mem, readWord mem (loadaddr + 4) = seed →
      (Passes board mem (arg0 :: arg1 :: rest) ↔ Agrees mem (loadaddr + 8) seed 10) := by
    rintro mem rfl
    rw [passes_iff, hload]
  refine ⟨?_, ?_, ?_⟩
  · intro mem _ hseed
    rw [hpasses mem hseed, holds_payload_iff]
    exact agrees_iff_agrees_iff _ _ _ _ _
  · intro h
    -- A memory right up to the smaller of the two counts separates them.
    have hlen : fsize.toInt.toNat < 2 ^ 31 := by
      have := BitVec.toInt_lt (x := fsize)
      omega
    have hheader := readWord_header
      (holds_corrupt_header loadaddr fsize seed (min fsize.toInt.toNat 10))
    have hsep := h (corrupt loadaddr fsize seed (min fsize.toInt.toNat 10))
      hheader.1 hheader.2
    rw [hpasses _ hheader.2, holds_payload_iff, agrees_corrupt_iff _ _ _ _ (by omega),
      agrees_corrupt_iff _ _ _ _ (by omega)] at hsep
    apply BitVec.eq_of_toInt_eq
    change fsize.toInt = 10
    omega
  · rintro rfl mem _ hseed
    rw [hpasses mem hseed, holds_payload_iff]
    rfl

/-- **Passing is equivalent to holding the payload only for images of ten bytes.** The payload is
what an undisturbed run of the host generator writes after its two words. In one memory the two are
equivalent if and only if the bytes that both look at, when right, come with all bytes that one of
them looks at; in all memories, if and only if the size is ten. -/
theorem passes_iff_holds_payload (board : Board) (arg0 arg1 : CString) (rest : List CString)
    {host : Creatf.Host} (hwrites : host.Writes) {creatf seed size name : CString}
    {args : List CString} (hopen : host.fopen name = true) (hsize : 0 ≤ (atoi size).toInt) :
    (∀ mem, readWord mem (hex2dec arg1).1 = atoi size →
      readWord mem ((hex2dec arg1).1 + 4) = atoi seed →
      ((Passes board mem (arg0 :: arg1 :: rest) ↔ Holds mem ((hex2dec arg1).1 + 8)
          ((Creatf.main host (creatf :: seed :: size :: name :: args)).file.drop 8)) ↔
        (Agrees mem ((hex2dec arg1).1 + 8) (atoi seed) (min (atoi size).toInt.toNat 10) →
          Agrees mem ((hex2dec arg1).1 + 8) (atoi seed) (max (atoi size).toInt.toNat 10)))) ∧
    ((∀ mem, readWord mem (hex2dec arg1).1 = atoi size →
      readWord mem ((hex2dec arg1).1 + 4) = atoi seed →
      (Passes board mem (arg0 :: arg1 :: rest) ↔ Holds mem ((hex2dec arg1).1 + 8)
        ((Creatf.main host (creatf :: seed :: size :: name :: args)).file.drop 8))) ↔
      atoi size = 10) := by
  rw [Creatf.drop_main_file hwrites hopen]
  exact passes_iff_payload board arg0 arg1 rest (atoi size) (atoi seed) hsize

/-- The file for the seed 1 and 256 bytes. -/
def image256 : List (BitVec 8) :=
  (Creatf.main Creatf.testHost ["creatf".toList, "1".toList, "256".toList, "image".toList]).file

/-- The equivalence fails for an image of 256 bytes. -/
theorem passes_iff_holds_payload_256 :
    0 ≤ (atoi "256".toList).toInt ∧
      ¬ ∀ mem, readWord mem (hex2dec ['0']).1 = atoi "256".toList →
        readWord mem ((hex2dec ['0']).1 + 4) = atoi "1".toList →
        (Passes ⟨none, 0, 0, 0⟩ mem [[], ['0']] ↔
          Holds mem ((hex2dec ['0']).1 + 8) (image256.drop 8)) :=
  ⟨by decide, fun h => absurd
    ((passes_iff_holds_payload ⟨none, 0, 0, 0⟩ [] ['0'] []
      (show Creatf.testHost.Writes from fun _ _ => rfl) rfl (by decide)).2.mp h) (by decide)⟩

/-- An image of 256 bytes with seed 1, all of whose payload bytes from the eleventh on are wrong,
passes. -/
theorem passes_corrupt_256 :
    readWord (corrupt 0 256 1 10) (hex2dec ['0']).1 = atoi "256".toList ∧
      readWord (corrupt 0 256 1 10) ((hex2dec ['0']).1 + 4) = atoi "1".toList ∧
      Passes ⟨none, 0, 0, 0⟩ (corrupt 0 256 1 10) [[], ['0']] ∧
      ¬ Holds (corrupt 0 256 1 10) ((hex2dec ['0']).1 + 8) (image256.drop 8) := by
  obtain ⟨hsize, hseed⟩ := readWord_header (holds_corrupt_header 0 256 1 10)
  have hload : (hex2dec ['0']).1 = 0 := rfl
  have hsize' : atoi "256".toList = 256 := by decide
  have hseed' : atoi "1".toList = 1 := by decide
  rw [hsize', hseed']
  refine ⟨hsize, hseed, ?_, ?_⟩
  · rw [passes_iff, hload, hseed, agrees_corrupt_iff 0 256 1 10 (by norm_num)]
  · rw [image256, Creatf.drop_main_file (fun _ _ => rfl) rfl, hsize', hseed', holds_payload_iff,
      hload, agrees_corrupt_iff 0 256 1 10 (by decide)]
    decide

end LinuxTest.Uboot.TftpTest
