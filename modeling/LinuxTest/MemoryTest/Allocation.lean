import LinuxTest.Foundations.Alignment
import LinuxTest.MemoryTest.Passes

/-!
# The buffer of the memory tester

The loop of `main` in `memory_test/memtester/memtester.c` that gets a buffer and locks it. A block
is allocated, with a page less after each failure, and the part of it that begins at a page is
locked. If there is too much of it for the system, the block is freed and a smaller one is tried.
If the permission is missing, the block is freed and a block of the first size is tried, which is
not locked. In that case the address of the part to test is not computed again: it is the one that
was found in the block that was freed.

The results of `malloc` and `mlock` are parameters: the `k`-th answer of each, for what it is asked.
The loop and the loop inside it are run as one, a call of `malloc` or an attempt to lock at a time.

## Main definitions

* `System`, `Search`: what the system answers, and the variables of the loop
* `System.step`, `System.getBuffer`: a round, and the loop
* `Search.Inside`: the buffer to test lies in the block that is allocated

## Main results

* `exists_getBuffer`: the loop ends, for a size of whole pages
* `inside_iff_not_denied`: when the buffer to test lies in the block
* `exists_region_of_not_denied`: a buffer that was not denied is a region of whole words, for which
  the tests are exact
* `exitCode_of_no_memory`: when the loop ends if nothing can be allocated, and what is reported then
-/

namespace LinuxTest.MemoryTest

open Foundations

/-! ## The program -/

/-- Why `mlock` failed. -/
inductive MlockError where
  | eagain
  | enomem
  | eperm
  | other
deriving Repr, DecidableEq

/-- What the system answers. -/
structure System where
  /-- The page size is this power of two. -/
  pageShift : ℕ
  /-- The `k`-th result of `malloc`, for a size; zero is `NULL`. -/
  malloc : ℕ → Ul → Ul
  /-- The `k`-th result of `mlock`, for an address and a length: nothing if it succeeds. -/
  mlock : ℕ → Ul → Ul → Option MlockError

/-- The variables of the loop, the number of calls of `malloc` and the results of `mlock` so far,
and the block that is allocated. -/
structure Search where
  buf : Ul
  aligned : Ul
  bufsize : Ul
  wantbytes : Ul
  doMlock : Bool
  doneMem : Bool
  mallocs : ℕ
  mlocks : List (Option MlockError)
  block : Option (Ul × Ul)
deriving Repr, DecidableEq

/-- The variables before the loop. The address of the buffer is not initialised. -/
def Search.start (garbage wantbytes : Ul) : Search :=
  ⟨0, garbage, 0, wantbytes, true, false, 0, [], none⟩

/-- The block is freed, and another size is tried. -/
def Search.retry (s : Search) (wantbytes : Ul) : Search :=
  { s with buf := 0, block := none, wantbytes }

namespace System

variable (sys : System)

/-- The variable `pagesize`. -/
def pagesize : Ul := BitVec.ofNat 32 (2 ^ sys.pageShift)

/-- The body of the inner loop: a call of `malloc`. -/
def mallocStep (s : Search) : Search :=
  let buf := sys.malloc s.mallocs s.wantbytes
  if buf = 0 then { s with mallocs := s.mallocs + 1, wantbytes := s.wantbytes - sys.pagesize }
  else { s with mallocs := s.mallocs + 1, buf, block := some (buf, s.wantbytes) }

/-- The part of a block that begins at a page. -/
def align (s : Search) : Search :=
  if s.buf % sys.pagesize ≠ 0 then
    let aligned := alignDown sys.pageShift s.buf + sys.pagesize
    { s with aligned, bufsize := s.wantbytes - (aligned - s.buf) }
  else { s with aligned := s.buf, bufsize := s.wantbytes }

/-- The result of `mlock` for the part that begins at a page. -/
def answer (s : Search) : Option MlockError :=
  sys.mlock s.mlocks.length (sys.align s).aligned (sys.align s).bufsize

/-- The variables after the call of `mlock`. -/
def asked (s : Search) : Search := { sys.align s with mlocks := s.mlocks ++ [sys.answer s] }

/-- The rest of the body of the outer loop: an attempt to lock. -/
def lockStep (wantbytesOrig : Ul) (s : Search) : Search :=
  if s.doMlock then
    match sys.answer s with
    | none => { sys.asked s with doneMem := true }
    | some .eagain => (sys.asked s).retry (s.wantbytes - sys.pagesize)
    | some .enomem => (sys.asked s).retry (s.wantbytes - sys.pagesize)
    | some .eperm => { (sys.asked s).retry wantbytesOrig with doMlock := false }
    | some .other => { sys.asked s with doMlock := false, doneMem := true }
  else { s with bufsize := s.wantbytes, doneMem := true }

/-- A call of `malloc` if the inner loop goes on, and an attempt to lock if not. -/
def step (wantbytesOrig : Ul) (s : Search) : Search :=
  if s.buf = 0 ∧ s.wantbytes ≠ 0 then sys.mallocStep s else sys.lockStep wantbytesOrig s

/-- The loop, with a bound on its rounds. -/
def getBuffer (wantbytes garbage : Ul) (fuel : ℕ) : Option Search :=
  whileLoop (fun s => s.doneMem = false) (sys.step wantbytes) fuel (Search.start garbage wantbytes)

end System

/-- The buffer to test. -/
def Search.buffer (s : Search) : Buffer := ⟨s.aligned.toNat, s.bufsize.toNat⟩

/-! ## What is expected -/

/-- The buffer to test lies in the block that is allocated. -/
def Search.Inside (s : Search) : Prop :=
  ∃ b n, s.block = some (b, n) ∧ b.toNat ≤ s.aligned.toNat ∧
    s.aligned.toNat + s.bufsize.toNat ≤ b.toNat + n.toNat

/-- One of the calls of `mlock` so far was denied the permission. -/
def Search.Denied (s : Search) : Prop := some .eperm ∈ s.mlocks

instance (s : Search) : Decidable s.Denied := inferInstanceAs (Decidable (_ ∈ _))

/-- What `malloc` and `mlock` keep to: a block does not wrap around, it begins at a multiple of
eight, and nothing can always be locked. -/
structure System.Sane (sys : System) : Prop where
  page : 3 ≤ sys.pageShift ∧ sys.pageShift < 32
  fits : ∀ k n, sys.malloc k n ≠ 0 → (sys.malloc k n).toNat + n.toNat ≤ 2 ^ 32
  words : ∀ k n, 8 ∣ (sys.malloc k n).toNat
  empty : ∀ k a, sys.mlock k a 0 = none

/-! ## A round -/

section Round

variable {sys : System} {s : Search} {wantbytesOrig : Ul}

theorem toNat_pagesize (hpage : sys.pageShift < 32) : sys.pagesize.toNat = 2 ^ sys.pageShift := by
  rw [System.pagesize, BitVec.toNat_ofNat]
  exact Nat.mod_eq_of_lt (Nat.pow_lt_pow_right (by decide) hpage)

/-- A size is a multiple of the page exactly if it is one with a page less, even where it wraps. -/
theorem dvd_toNat_sub_pagesize_iff (hpage : sys.pageShift < 32) {n : Ul} :
    2 ^ sys.pageShift ∣ (n - sys.pagesize).toNat ↔ 2 ^ sys.pageShift ∣ n.toNat := by
  have hword : 2 ^ sys.pageShift ∣ 2 ^ 32 := Nat.pow_dvd_pow 2 hpage.le
  rw [BitVec.toNat_sub, toNat_pagesize hpage, Nat.dvd_mod_iff hword]
  exact Nat.dvd_add_right (Nat.dvd_sub hword (Nat.dvd_refl _))

/-- A size of whole pages that is not zero does not wrap when a page is taken away. -/
theorem toNat_sub_pagesize_lt (hpage : sys.pageShift < 32) {n : Ul}
    (hn : 2 ^ sys.pageShift ∣ n.toNat) (hne : n ≠ 0) :
    (n - sys.pagesize).toNat < n.toNat := by
  have hpos : 0 < 2 ^ sys.pageShift := Nat.two_pow_pos _
  have hnat : 0 < n.toNat := Nat.pos_of_ne_zero fun h => hne (BitVec.eq_of_toNat_eq h)
  have hle : sys.pagesize ≤ n := by
    rw [BitVec.le_def, toNat_pagesize hpage]
    exact Nat.le_of_dvd hnat hn
  rw [BitVec.toNat_sub_of_le hle, toNat_pagesize hpage]
  exact Nat.sub_lt hnat hpos

/-- **The part of a block that begins at a page** ends where the block ends. -/
theorem align_spec (hpage : sys.pageShift < 32) (hsize : 2 ^ sys.pageShift ∣ s.wantbytes.toNat)
    (hblock : s.buf ≠ 0 → s.wantbytes ≠ 0)
    (hfits : s.buf.toNat + s.wantbytes.toNat ≤ 2 ^ 32) :
    2 ^ sys.pageShift ∣ (sys.align s).aligned.toNat ∧
      s.buf.toNat ≤ (sys.align s).aligned.toNat ∧
      (sys.align s).aligned.toNat + (sys.align s).bufsize.toNat =
        s.buf.toNat + s.wantbytes.toNat := by
  have hpos : 0 < 2 ^ sys.pageShift := Nat.two_pow_pos _
  have hmod : s.buf % sys.pagesize = 0 ↔ s.buf.toNat % 2 ^ sys.pageShift = 0 := by
    rw [← BitVec.toNat_inj, BitVec.toNat_umod, toNat_pagesize hpage]
    rfl
  unfold System.align
  split_ifs with hbuf
  · -- The next page begins in the block, which has a page at least.
    rw [Ne, hmod] at hbuf
    have hne : s.wantbytes.toNat ≠ 0 := by
      intro hzero
      refine hblock ?_ (BitVec.eq_of_toNat_eq hzero)
      rintro hnull
      rw [hnull] at hbuf
      exact hbuf (Nat.zero_mod _)
    have hle := Nat.le_of_dvd (Nat.pos_of_ne_zero hne) hsize
    have hdiv := Nat.div_add_mod' s.buf.toNat (2 ^ sys.pageShift)
    have hlt := Nat.mod_lt s.buf.toNat hpos
    have haligned : (alignDown sys.pageShift s.buf + sys.pagesize).toNat =
        s.buf.toNat / 2 ^ sys.pageShift * 2 ^ sys.pageShift + 2 ^ sys.pageShift := by
      rw [BitVec.toNat_add, toNat_alignDown, toNat_pagesize hpage]
      exact Nat.mod_eq_of_lt (by omega)
    have hgap : (alignDown sys.pageShift s.buf + sys.pagesize - s.buf).toNat =
        2 ^ sys.pageShift - s.buf.toNat % 2 ^ sys.pageShift := by
      rw [BitVec.toNat_sub_of_le (BitVec.le_def.mpr (by omega)), haligned]
      omega
    have hrest : (s.wantbytes - (alignDown sys.pageShift s.buf + sys.pagesize - s.buf)).toNat =
        s.wantbytes.toNat - (2 ^ sys.pageShift - s.buf.toNat % 2 ^ sys.pageShift) := by
      rw [BitVec.toNat_sub_of_le (BitVec.le_def.mpr (by omega)), hgap]
    dsimp only
    rw [hrest, haligned]
    exact ⟨Nat.dvd_add (Nat.dvd_mul_left _ _) (Nat.dvd_refl _), by omega, by omega⟩
  · rw [not_not, hmod] at hbuf
    exact ⟨Nat.dvd_of_mod_eq_zero hbuf, Nat.le_refl _, rfl⟩

@[simp] theorem align_buf (s : Search) : (sys.align s).buf = s.buf := by
  unfold System.align
  split_ifs <;> rfl

@[simp] theorem align_wantbytes (s : Search) : (sys.align s).wantbytes = s.wantbytes := by
  unfold System.align
  split_ifs <;> rfl

@[simp] theorem align_doMlock (s : Search) : (sys.align s).doMlock = s.doMlock := by
  unfold System.align
  split_ifs <;> rfl

@[simp] theorem align_doneMem (s : Search) : (sys.align s).doneMem = s.doneMem := by
  unfold System.align
  split_ifs <;> rfl

@[simp] theorem align_block (s : Search) : (sys.align s).block = s.block := by
  unfold System.align
  split_ifs <;> rfl

/-- The block of a search is as `malloc` returned it, and nothing else is allocated. -/
structure Search.Holds (sys : System) (s : Search) : Prop where
  page : 2 ^ sys.pageShift ∣ s.wantbytes.toNat
  null : s.buf = 0 → s.block = none
  block : s.buf ≠ 0 → s.block = some (s.buf, s.wantbytes)
  size : s.buf ≠ 0 → s.wantbytes ≠ 0
  fits : s.buf.toNat + s.wantbytes.toNat ≤ 2 ^ 32
  words : 8 ∣ s.buf.toNat

/-- The buffer to test is the part of the block that begins at a page. -/
def Search.Aligned (sys : System) (s : Search) : Prop :=
  2 ^ sys.pageShift ∣ s.aligned.toNat ∧ s.buf.toNat ≤ s.aligned.toNat ∧
    s.aligned.toNat + s.bufsize.toNat = s.buf.toNat + s.wantbytes.toNat

/-- What every round keeps. A search that was not denied the permission has computed the address
for the block it holds when it is done; one that was denied it never computes it again. -/
structure Search.Valid (sys : System) (s : Search) : Prop where
  holds : s.Holds sys
  answers : ∀ e ∈ s.mlocks, ∃ k a n, e = sys.mlock k a n
  locking : s.doMlock = true → ¬ s.Denied
  unlocked : s.doMlock = false → s.doneMem = false → s.Denied
  denied : s.doneMem = true → s.Denied → s.bufsize = s.wantbytes
  done : s.doneMem = true → ¬ s.Denied → s.Aligned sys

theorem Search.Holds.of_null (hpage : 2 ^ sys.pageShift ∣ s.wantbytes.toNat) (hnull : s.buf = 0)
    (hblock : s.block = none) : s.Holds sys where
  page := hpage
  null _ := hblock
  block h := absurd hnull h
  size h := absurd hnull h
  fits := by
    rw [hnull]
    exact (Nat.zero_add _).trans_le s.wantbytes.isLt.le
  words := by
    rw [hnull]
    exact Nat.dvd_zero _

theorem Search.Holds.aligned_align (hpage : sys.pageShift < 32) (h : s.Holds sys) :
    (sys.align s).Aligned sys := by
  rw [Search.Aligned, align_buf, align_wantbytes]
  exact align_spec hpage h.page h.size h.fits

/-- Of a size of nothing, nothing is locked, and that succeeds. -/
theorem Search.Holds.answer_of_empty (hsane : sys.Sane) (h : s.Holds sys)
    (hzero : s.wantbytes = 0) : sys.answer s = none := by
  have hnull : s.buf = 0 := by
    by_contra hbuf
    exact h.size hbuf hzero
  obtain ⟨-, -, hend⟩ := h.aligned_align hsane.page.2
  rw [align_buf, align_wantbytes, hnull, hzero] at hend
  have hsum : (sys.align s).aligned.toNat + (sys.align s).bufsize.toNat = 0 := hend
  have hbufsize : (sys.align s).bufsize = 0 :=
    BitVec.eq_of_toNat_eq (Nat.eq_zero_of_add_eq_zero_left hsum)
  rw [System.answer, hbufsize]
  exact hsane.empty _ _

/-- A call of `malloc`. -/
theorem Search.Valid.mallocStep (hsane : sys.Sane) (h : s.Valid sys) (hdone : s.doneMem = false)
    (hnull : s.buf = 0) (hsize : s.wantbytes ≠ 0) : (sys.mallocStep s).Valid sys := by
  have hnotdone : s.doneMem ≠ true := by simp [hdone]
  have hsub := (dvd_toNat_sub_pagesize_iff hsane.page.2).mpr h.holds.page
  unfold System.mallocStep
  dsimp only
  split_ifs with hfail
  · exact {
      holds := .of_null hsub hnull (h.holds.null hnull)
      answers := h.answers
      locking := h.locking
      unlocked := h.unlocked
      denied := fun hdone' => absurd hdone' hnotdone
      done := fun hdone' => absurd hdone' hnotdone }
  · exact {
      holds := {
        page := h.holds.page
        null := fun hbuf => absurd hbuf hfail
        block := fun _ => rfl
        size := fun _ => hsize
        fits := hsane.fits _ _ hfail
        words := hsane.words _ _ }
      answers := h.answers
      locking := h.locking
      unlocked := h.unlocked
      denied := fun hdone' => absurd hdone' hnotdone
      done := fun hdone' => absurd hdone' hnotdone }

/-- What a call of `mlock` leaves, for a search that was not denied the permission before. -/
structure Search.Asked (sys : System) (s a : Search) : Prop where
  holds : a.Holds sys
  answers : ∀ e ∈ a.mlocks, ∃ k b n, e = sys.mlock k b n
  aligned : a.Aligned sys
  denied : a.Denied ↔ sys.answer s = some .eperm
  doMlock : a.doMlock = true
  doneMem : a.doneMem = false

theorem Search.Valid.asked (hsane : sys.Sane) (h : s.Valid sys) (hdone : s.doneMem = false)
    (hlock : s.doMlock = true) : Search.Asked sys s (sys.asked s) where
  holds := {
    page := by simpa [System.asked] using h.holds.page
    null := by simpa [System.asked] using h.holds.null
    block := by simpa [System.asked] using h.holds.block
    size := by simpa [System.asked] using h.holds.size
    fits := by simpa [System.asked] using h.holds.fits
    words := by simpa [System.asked] using h.holds.words }
  answers e he := by
    rcases List.mem_append.mp he with hold | hnew
    · exact h.answers e hold
    · exact ⟨_, _, _, List.mem_singleton.mp hnew⟩
  aligned := h.holds.aligned_align hsane.page.2
  denied := by
    -- Whether the search is denied the permission is the answer of this call.
    have hbefore : some .eperm ∉ s.mlocks := h.locking hlock
    simp [Search.Denied, System.asked, hbefore, eq_comm]
  doMlock := by simpa [System.asked] using hlock
  doneMem := by simpa [System.asked] using hdone

/-- A search that was not denied the permission and is done. -/
theorem Search.Asked.valid_done {a : Search} (h : Search.Asked sys s a)
    (hanswer : sys.answer s ≠ some .eperm) (doMlock : Bool) :
    { a with doMlock, doneMem := true : Search }.Valid sys := by
  have hd : ¬ a.Denied := fun hd => hanswer (h.denied.mp hd)
  exact {
    holds := ⟨h.holds.page, h.holds.null, h.holds.block, h.holds.size, h.holds.fits, h.holds.words⟩
    answers := h.answers
    locking := fun _ => hd
    unlocked := fun _ => nofun
    denied := fun _ hd' => absurd hd' hd
    done := fun _ _ => h.aligned }

/-- A search that was not denied the permission and tries another size. -/
theorem Search.Asked.valid_retry {a : Search} (h : Search.Asked sys s a)
    (hanswer : sys.answer s ≠ some .eperm) {wantbytes : Ul}
    (hwant : 2 ^ sys.pageShift ∣ wantbytes.toNat) : (a.retry wantbytes).Valid sys := by
  have hd : ¬ a.Denied := fun hd => hanswer (h.denied.mp hd)
  have hopen : (a.retry wantbytes).doneMem ≠ true := by simp [Search.retry, h.doneMem]
  have hlock : (a.retry wantbytes).doMlock ≠ false := by simp [Search.retry, h.doMlock]
  exact {
    holds := .of_null hwant rfl rfl
    answers := h.answers
    locking := fun _ => hd
    unlocked := fun hdo => absurd hdo hlock
    denied := fun hdone => absurd hdone hopen
    done := fun hdone => absurd hdone hopen }

/-- A search that was denied the permission begins again with the first size. -/
theorem Search.Asked.valid_denied {a : Search} (h : Search.Asked sys s a)
    (hanswer : sys.answer s = some .eperm) {wantbytesOrig : Ul}
    (horig : 2 ^ sys.pageShift ∣ wantbytesOrig.toNat) :
    { a.retry wantbytesOrig with doMlock := false : Search }.Valid sys := by
  have hopen : (a.retry wantbytesOrig).doneMem ≠ true := by simp [Search.retry, h.doneMem]
  exact {
    holds := .of_null horig rfl rfl
    answers := h.answers
    locking := nofun
    unlocked := fun _ _ => h.denied.mpr hanswer
    denied := fun hdone => absurd hdone hopen
    done := fun hdone => absurd hdone hopen }

/-- An attempt to lock. -/
theorem Search.Valid.lockStep (hsane : sys.Sane) (horig : 2 ^ sys.pageShift ∣ wantbytesOrig.toNat)
    (h : s.Valid sys) (hdone : s.doneMem = false) : (sys.lockStep wantbytesOrig s).Valid sys := by
  have hsub := (dvd_toNat_sub_pagesize_iff hsane.page.2).mpr h.holds.page
  unfold System.lockStep
  by_cases hlock : s.doMlock = true
  · have hasked := h.asked hsane hdone hlock
    rw [if_pos hlock]
    split
    · next hanswer => exact hasked.valid_done (hanswer ▸ nofun) _
    · next hanswer => exact hasked.valid_retry (hanswer ▸ nofun) hsub
    · next hanswer => exact hasked.valid_retry (hanswer ▸ nofun) hsub
    · next hanswer => exact hasked.valid_denied hanswer horig
    · next hanswer => exact hasked.valid_done (hanswer ▸ nofun) _
  · -- Without a lock the address is the one that was found before.
    have hd : s.Denied := h.unlocked (by simpa using hlock) hdone
    rw [if_neg hlock]
    exact {
      holds := ⟨h.holds.page, h.holds.null, h.holds.block, h.holds.size, h.holds.fits,
        h.holds.words⟩
      answers := h.answers
      locking := fun hdo => absurd hdo hlock
      unlocked := fun _ => nofun
      denied := fun _ _ => rfl
      done := fun _ hd' => absurd hd hd' }

/-- **What every round keeps.** -/
theorem Search.Valid.step (hsane : sys.Sane) (horig : 2 ^ sys.pageShift ∣ wantbytesOrig.toNat)
    (h : s.Valid sys) (hdone : s.doneMem = false) : (sys.step wantbytesOrig s).Valid sys := by
  unfold System.step
  split_ifs with hmore
  · exact h.mallocStep hsane hdone hmore.1 hmore.2
  · exact h.lockStep hsane horig hdone

/-- A bound on the rounds that are left. A search that is denied the permission begins again once;
other than that, the size only shrinks. -/
def Search.rounds (s : Search) : ℕ :=
  (if s.doMlock then 2 ^ 34 else 0) + 2 * s.wantbytes.toNat + (if s.buf = 0 then 1 else 0) +
    if s.doneMem then 0 else 1

theorem Search.Valid.rounds_mallocStep_lt (hsane : sys.Sane) (h : s.Valid sys) (hnull : s.buf = 0)
    (hsize : s.wantbytes ≠ 0) : (sys.mallocStep s).rounds < s.rounds := by
  have hless := toNat_sub_pagesize_lt hsane.page.2 h.holds.page hsize
  unfold System.mallocStep
  dsimp only
  split_ifs with hfail
  · simp only [Search.rounds, hnull, if_true]
    omega
  · simp only [Search.rounds, hnull, hfail, if_true, if_false]
    omega

theorem Search.Valid.rounds_retry_lt (hsane : sys.Sane) (h : s.Valid sys)
    (hanswer : sys.answer s ≠ none) :
    ((sys.asked s).retry (s.wantbytes - sys.pagesize)).rounds < s.rounds := by
  have hsize : s.wantbytes ≠ 0 := fun hzero => hanswer (h.holds.answer_of_empty hsane hzero)
  have hless := toNat_sub_pagesize_lt hsane.page.2 h.holds.page hsize
  simp only [Search.rounds, Search.retry, System.asked, align_doMlock, align_doneMem, if_true]
  omega

theorem Search.Valid.rounds_lockStep_lt (hsane : sys.Sane) (h : s.Valid sys)
    (hdone : s.doneMem = false) : (sys.lockStep wantbytesOrig s).rounds < s.rounds := by
  have horig := wantbytesOrig.isLt
  unfold System.lockStep
  by_cases hlock : s.doMlock = true
  · rw [if_pos hlock]
    split
    · simp [Search.rounds, System.asked, hdone]
    · next hanswer => exact h.rounds_retry_lt hsane (hanswer ▸ nofun)
    · next hanswer => exact h.rounds_retry_lt hsane (hanswer ▸ nofun)
    · simp only [Search.rounds, Search.retry, System.asked, align_doneMem, hlock, hdone, if_true,
        Bool.false_eq_true, if_false]
      omega
    · simp only [Search.rounds, System.asked, align_buf, align_wantbytes, hlock, hdone, if_true,
        Bool.false_eq_true, if_false]
      omega
  · rw [if_neg hlock]
    simp [Search.rounds, hdone]

/-- **Every round brings the end closer.** -/
theorem Search.Valid.rounds_step_lt (hsane : sys.Sane) (h : s.Valid sys)
    (hdone : s.doneMem = false) : (sys.step wantbytesOrig s).rounds < s.rounds := by
  unfold System.step
  split_ifs with hmore
  · exact h.rounds_mallocStep_lt hsane hmore.1 hmore.2
  · exact h.rounds_lockStep_lt hsane hdone

end Round

/-! ## The loop -/

section Loop

variable {sys : System} {s : Search} {wantbytes garbage : Ul} {fuel : ℕ}

theorem valid_start (hwant : 2 ^ sys.pageShift ∣ wantbytes.toNat) (garbage : Ul) :
    (Search.start garbage wantbytes).Valid sys where
  holds := .of_null hwant rfl rfl
  answers := nofun
  locking _ := List.not_mem_nil
  unlocked := nofun
  denied := nofun
  done := nofun

/-- **The loop ends**, for a size of whole pages. -/
theorem exists_getBuffer (hsane : sys.Sane) (hwant : 2 ^ sys.pageShift ∣ wantbytes.toNat)
    (garbage : Ul) : ∃ fuel s, sys.getBuffer wantbytes garbage fuel = some s :=
  exists_whileLoop_of_measure Search.rounds
    (fun _ hdone hs => Search.Valid.step hsane hwant hs hdone)
    (fun _ hdone hs => Search.Valid.rounds_step_lt hsane hs hdone) (valid_start hwant garbage)

theorem valid_of_getBuffer (hsane : sys.Sane) (hwant : 2 ^ sys.pageShift ∣ wantbytes.toNat)
    (h : sys.getBuffer wantbytes garbage fuel = some s) : s.Valid sys ∧ s.doneMem = true := by
  obtain ⟨hvalid, hdone⟩ := whileLoop_invariant
    (fun s hdone hs => Search.Valid.step hsane hwant hs hdone) (valid_start hwant garbage) h
  exact ⟨hvalid, by simpa using hdone⟩

/-- A search whose calls of `mlock` are never denied the permission. -/
theorem Search.Valid.not_denied (h : s.Valid sys)
    (hgranted : ∀ k a n, sys.mlock k a n ≠ some .eperm) : ¬ s.Denied := by
  intro hd
  obtain ⟨k, a, n, hanswer⟩ := h.answers _ hd
  exact hgranted k a n hanswer.symm

theorem Search.Valid.inside (h : s.Valid sys) (hdone : s.doneMem = true) (hd : ¬ s.Denied)
    (hbuf : s.buf ≠ 0) : s.Inside := by
  obtain ⟨-, hle, hend⟩ := h.done hdone hd
  exact ⟨s.buf, s.wantbytes, h.holds.block hbuf, hle, hend.le⟩

/-- After a denial the buffer is as long as the block, so that it lies in it only if both begin at
the same address. -/
theorem Search.Valid.inside_iff_of_denied (h : s.Valid sys) (hdone : s.doneMem = true)
    (hd : s.Denied) (hbuf : s.buf ≠ 0) : s.Inside ↔ s.aligned = s.buf := by
  have hsize := h.denied hdone hd
  constructor
  · rintro ⟨b, n, hblock, hle, hend⟩
    rw [h.holds.block hbuf, Option.some_inj, Prod.mk.injEq] at hblock
    obtain ⟨rfl, rfl⟩ := hblock
    rw [hsize] at hend
    exact BitVec.eq_of_toNat_eq (by omega)
  · intro heq
    refine ⟨s.buf, s.wantbytes, h.holds.block hbuf, ?_, ?_⟩
    · rw [heq]
    · rw [heq, hsize]

/-- **When the buffer to test lies in the block that is allocated**: if there is a block, and no
call of `mlock` was denied the permission or the new block begins where the part to test began in
the old one. -/
theorem inside_iff_not_denied (hsane : sys.Sane) (wantbytes garbage : Ul)
    (hwant : 2 ^ sys.pageShift ∣ wantbytes.toNat) :
    (∃ fuel s, sys.getBuffer wantbytes garbage fuel = some s) ∧
      ∀ fuel s, sys.getBuffer wantbytes garbage fuel = some s →
        (s.Inside ↔ s.buf ≠ 0 ∧ (¬ s.Denied ∨ s.aligned = s.buf)) := by
  refine ⟨exists_getBuffer hsane hwant garbage, fun fuel s h => ?_⟩
  obtain ⟨hvalid, hdone⟩ := valid_of_getBuffer hsane hwant h
  by_cases hbuf : s.buf = 0
  · refine iff_of_false ?_ fun hand => hand.1 hbuf
    rintro ⟨b, n, hblock, -⟩
    rw [hvalid.holds.null hbuf] at hblock
    cases hblock
  · by_cases hd : s.Denied
    · rw [hvalid.inside_iff_of_denied hdone hd hbuf]
      exact ⟨fun heq => ⟨hbuf, Or.inr heq⟩, fun hand => hand.2.resolve_left (not_not.mpr hd)⟩
    · exact iff_of_true (hvalid.inside hdone hd hbuf) ⟨hbuf, Or.inl hd⟩

/-- A system that allocates every block at the same place, eight bytes after a page, and always
gives the same answer to `mlock` of something. -/
def plainSystem (answer : Option MlockError) : System where
  pageShift := 12
  malloc _ n := if n.toNat ≤ 2 ^ 31 then 65544 else 0
  mlock _ _ n := if n = 0 then none else answer

theorem sane_plainSystem (answer : Option MlockError) : (plainSystem answer).Sane where
  page := (by decide : 3 ≤ 12 ∧ 12 < 32)
  fits k n h := by
    unfold plainSystem at h ⊢
    dsimp only at h ⊢
    split_ifs at h ⊢ with hn
    · rw [show (65544 : Ul).toNat = 65544 from rfl]
      omega
    · exact absurd rfl h
  words k n := by
    unfold plainSystem
    dsimp only
    split_ifs <;> decide
  empty _ _ := by simp [plainSystem]

/-- A search that is denied the permission ends with a buffer that is not in its block. -/
theorem not_inside_of_denied :
    ∃ s, (plainSystem (some .eperm)).getBuffer 65536 0 4 = some s ∧ s.buf ≠ 0 ∧ ¬ s.Inside := by
  refine ⟨_, rfl, by decide, fun hinside => ?_⟩
  have hiff :=
    (inside_iff_not_denied (sane_plainSystem (some .eperm)) 65536 0 (by decide)).2 4 _ rfl
  exact absurd (hiff.mp hinside) (by decide)

/-- A search that was not denied the permission finds a region of whole words. -/
theorem exists_region_of_not_denied (hsane : sys.Sane)
    (hwant : 2 ^ sys.pageShift ∣ wantbytes.toNat)
    (h : sys.getBuffer wantbytes garbage fuel = some s) (hd : ¬ s.Denied) :
    ∃ g : Region, g.toBuffer = s.buffer := by
  obtain ⟨hvalid, hdone⟩ := valid_of_getBuffer hsane hwant h
  obtain ⟨hdvd, -, hend⟩ := hvalid.done hdone hd
  have hpage : 8 ∣ 2 ^ sys.pageShift := Nat.pow_dvd_pow 2 hsane.page.1
  refine ⟨⟨s.buffer, ?_, ?_⟩, rfl⟩
  · exact hend.trans_le hvalid.holds.fits
  · refine (Nat.dvd_add_right (hpage.trans hdvd)).mp ?_
    rw [Search.buffer, hend]
    exact Nat.dvd_add hvalid.holds.words (hpage.trans hvalid.holds.page)

end Loop

/-! ## No memory at all -/

section NoMemory

variable {sys : System} {s : Search} {wantbytes garbage : Ul} {fuel : ℕ}

/-- What every round keeps if no block is allocated. -/
structure Search.Failed (sys : System) (wantbytes : Ul) (s : Search) : Prop where
  buf : s.buf = 0
  block : s.block = none
  doMlock : s.doMlock = true
  page : 2 ^ sys.pageShift ∣ s.wantbytes.toNat ↔ 2 ^ sys.pageShift ∣ wantbytes.toNat
  done : s.doneMem = true → s.wantbytes = 0 ∧ s.buffer = ⟨0, 0⟩

/-- A round without a block: another size is tried, or nothing is locked at the address zero. -/
theorem Search.Failed.step (hpage : sys.pageShift < 32) (hmalloc : ∀ k n, sys.malloc k n = 0)
    (hmlock : ∀ k a, sys.mlock k a 0 = none) (h : s.Failed sys wantbytes)
    (hdone : s.doneMem = false) : (sys.step wantbytes s).Failed sys wantbytes := by
  unfold System.step
  split_ifs with hmore
  · rw [System.mallocStep, if_pos (hmalloc _ _)]
    exact {
      buf := h.buf
      block := h.block
      doMlock := h.doMlock
      page := (dvd_toNat_sub_pagesize_iff hpage).trans h.page
      done := fun hdone' => by simp [hdone] at hdone' }
  · have hzero : s.wantbytes = 0 := by
      by_contra hne
      exact hmore ⟨h.buf, hne⟩
    have hmod : ¬ s.buf % sys.pagesize ≠ 0 := by
      rw [h.buf, not_not]
      exact BitVec.zero_umod
    have halign : sys.align s = { s with aligned := 0, bufsize := 0 } := by
      rw [System.align, if_neg hmod, h.buf, hzero]
    have hanswer : sys.answer s = none := by
      rw [System.answer, halign]
      exact hmlock _ _
    rw [System.lockStep, if_pos h.doMlock, hanswer]
    simp only [System.asked, halign]
    exact {
      buf := h.buf
      block := h.block
      doMlock := h.doMlock
      page := h.page
      done := fun _ => ⟨hzero, rfl⟩ }

theorem failed_of_getBuffer (hpage : sys.pageShift < 32) (hmalloc : ∀ k n, sys.malloc k n = 0)
    (hmlock : ∀ k a, sys.mlock k a 0 = none)
    (h : sys.getBuffer wantbytes garbage fuel = some s) :
    s.Failed sys wantbytes ∧ s.doneMem = true := by
  have hstart : (Search.start garbage wantbytes).Failed sys wantbytes :=
    ⟨rfl, rfl, rfl, Iff.rfl, nofun⟩
  obtain ⟨hfailed, hdone⟩ := whileLoop_invariant
    (fun _ hdone hs => Search.Failed.step hpage hmalloc hmlock hs hdone) hstart h
  exact ⟨hfailed, by simpa using hdone⟩

/-- **If nothing can be allocated**, the loop ends exactly if the size is one of whole pages. The
tests then run on a buffer without a word, and the program ends with zero, whatever the memory is
like. -/
theorem exitCode_of_no_memory {C : Type} [DecidableEq C]
    (hpage : 3 ≤ sys.pageShift ∧ sys.pageShift < 32) (hmalloc : ∀ k n, sys.malloc k n = 0)
    (hmlock : ∀ k a, sys.mlock k a 0 = none) (wantbytes garbage : Ul) (t : Machine C)
    (testmask : Ul) (w : World C) :
    ((∃ fuel s, sys.getBuffer wantbytes garbage fuel = some s) ↔
        2 ^ sys.pageShift ∣ wantbytes.toNat) ∧
      ∀ fuel s, sys.getBuffer wantbytes garbage fuel = some s →
        s.block = none ∧ s.buffer.bufsize = 0 ∧
          ∀ n,
            ((loopBody t s.buffer (enableRandomValue testmask))^[n] ⟨0, w, []⟩).exitCode = 0 := by
  have hsane : sys.Sane :=
    ⟨hpage, fun k n h => absurd (hmalloc k n) h, fun k n => by simp [hmalloc], hmlock⟩
  refine ⟨⟨?_, fun hwant => exists_getBuffer hsane hwant garbage⟩, fun fuel s h => ?_⟩
  · rintro ⟨fuel, s, h⟩
    obtain ⟨hfailed, hdone⟩ := failed_of_getBuffer hpage.2 hmalloc hmlock h
    rw [← hfailed.page, (hfailed.done hdone).1]
    exact Nat.dvd_zero _
  · obtain ⟨hfailed, hdone⟩ := failed_of_getBuffer hpage.2 hmalloc hmlock h
    have hbuffer := (hfailed.done hdone).2
    rw [hbuffer]
    exact ⟨hfailed.block, rfl, fun n =>
      exitCode_iterate_of_faultless (g := ⟨⟨0, 0⟩, by decide, by decide⟩)
        (faultless_zero t.ram 0) (enabled_enableRandomValue testmask) n w⟩

/-- A system without memory. -/
def exhausted : System := ⟨12, fun _ _ => 0, fun _ _ _ => none⟩

/-- A memory in which every bit is stuck passes, if nothing of it can be allocated; and for a size
of a page and a half, the program does not come to an end. -/
theorem exitCode_of_no_memory_stuck :
    (∃ fuel s, exhausted.getBuffer 65536 0 fuel = some s ∧ s.block = none ∧
      s.buffer.bufsize = 0 ∧
      ((loopBody (dataLines (BitVec.allOnes 32)) s.buffer (enableRandomValue 0))^[1]
        ⟨0, ⟨fun _ => 0, 0, []⟩, []⟩).exitCode = 0) ∧
      ¬ ∃ fuel s, exhausted.getBuffer 6144 0 fuel = some s := by
  have hpage : 3 ≤ exhausted.pageShift ∧ exhausted.pageShift < 32 := by decide
  have hno (wantbytes : Ul) := exitCode_of_no_memory hpage (fun _ _ => rfl) (fun _ _ => rfl)
    wantbytes 0 (dataLines (BitVec.allOnes 32)) 0 ⟨fun _ => 0, 0, []⟩
  constructor
  · obtain ⟨hends, hresult⟩ := hno 65536
    obtain ⟨fuel, s, hs⟩ := hends.mpr (by decide)
    obtain ⟨hblock, hsize, hexit⟩ := hresult fuel s hs
    exact ⟨fuel, s, hs, hblock, hsize, hexit 1⟩
  · intro hends
    exact absurd ((hno 6144).1.mp hends) (by decide)

end NoMemory

end LinuxTest.MemoryTest
