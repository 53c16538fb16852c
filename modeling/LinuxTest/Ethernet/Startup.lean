import LinuxTest.Ethernet.Locality
import LinuxTest.Ethernet.Throughput

/-!
# The start of the workers of the traffic tool

The second half of `main` in `ethernet_test/test-suite/options.cpp`: after the options have been
read, the workers are started one after another. The constructor of a worker assigns its flags and
its vectors, and the option that opens it the seconds. The size of its messages is assigned by an
option `-m` behind it, and by nothing else. So whether it has one depends on the order of the
options. This is followed through the loop with one truth value for each worker.

## Main definitions

* `startLoop`, `main`: the workers on which `startWorker` is called, and how the loop ends
* `Configured`: the members that `sender()` and `receiver()` read have been assigned
* `Followed`: every opening element of a list is followed by a closing one
* `stepSizes`: what an option does to the sizes of the workers

## Main results

* `sender_of_not_configured`, `receiver_of_not_configured`: such a worker has no defined behaviour
* `sizes_runFrom`: the loop follows `stepSizes`
* `all_foldl_stepSizes_iff`: when all workers have a size in the end
* `configured_iff`: when all started workers are configured
-/

namespace LinuxTest.Ethernet.Options

open Foundations

/-- How the program ends before all workers are started: in the loop over the options, or by an
assertion. -/
inductive MainStop where
  | options (stop : Stop)
  | address (stop : IPAddress.Stop)
  | abort (text : CString)
deriving Repr, DecidableEq

/-- The loop that starts the workers, from the `k`-th on: those on which `startWorker` is called, and
how the loop ends early. The `k`-th result of `pthread_create` is `iret k`. -/
def startLoop (net : Network) (iret : ℕ → BitVec 32) (k : ℕ) :
    List SocketWorker → List SocketWorker × Option MainStop
  | [] => ([], none)
  | w :: ws =>
    -- The local addresses are printed, which asserts their families.
    match w.vLocalIP.mapM (IPAddress.tostring net) with
    | .error stop => ([], some (.address stop))
    | .ok _ =>
      if iret k ≠ 0 then
        ([w], some (.abort (Throughput.assertion "iret == 0" "options.cpp" "startWorker" 266)))
      else
        let rest := startLoop net iret (k + 1) ws
        (w :: rest.1, rest.2)

/-- The function `main`. -/
def main (net : Network) (iret : ℕ → BitVec 32) (argv : List CString) :
    List SocketWorker × Option MainStop :=
  match optionLoop net argv with
  | .error stop => ([], some (.options stop))
  | .ok s => startLoop net iret 0 s.vSockets

/-- The members that `sender()` and `receiver()` read have been assigned. The flags and the vectors
always are, by the constructor. -/
structure Configured (w : SocketWorker) : Prop where
  seconds : w.seconds.isSome = true
  messageSize : w.messageSize.isSome = true

/-- The arguments that open a worker. -/
def opensWorker (arg : CString) : Bool := arg[1]? = some 't' || arg[1]? = some 'r'

/-- The arguments that set the size of the messages. -/
def givesSize (arg : CString) : Bool := arg[1]? = some 'm'

/-- The option that sets the size of the messages. -/
def Opt.givesSize : Opt → Bool
  | .m _ => true
  | _ => false

/-! ## Workers that are not configured -/

section Undefined

variable {net : Network} {w : SocketWorker}

theorem not_configured_iff : ¬ Configured w ↔ w.seconds = none ∨ w.messageSize = none := by
  constructor
  · intro h
    by_contra hassigned
    rw [not_or] at hassigned
    exact h ⟨Option.isSome_iff_ne_none.mpr hassigned.1, Option.isSome_iff_ne_none.mpr hassigned.2⟩
  · rintro (h | h) hw
    · have := hw.seconds
      rw [h] at this
      cases this
    · have := hw.messageSize
      rw [h] at this
      cases this

/-- **A sender that is not configured** has no defined behaviour. -/
theorem sender_of_not_configured (h : ¬ Configured w) (calls : Throughput.Calls)
    (rounds : List Throughput.SendRound) : Throughput.sender net calls w rounds = none := by
  unfold Throughput.sender
  rcases not_configured_iff.mp h with h | h
  · rw [h, Option.bind_none]
  · rw [h]
    cases w.seconds <;> rfl

/-- **A receiver that is not configured** has no defined behaviour. -/
theorem receiver_of_not_configured (h : ¬ Configured w) (calls : Throughput.Calls)
    (rounds : List Throughput.RecvRound) : Throughput.receiver net calls w rounds = none := by
  unfold Throughput.receiver
  rcases not_configured_iff.mp h with h | h
  · rw [h, Option.bind_none]
  · rw [h]
    cases w.seconds <;> rfl

end Undefined

/-! ## Elements that are followed by others -/

section Followed

variable {A B : Type}

/-- Every element with `p` is followed by one with `q` before the next one with `p`. -/
def Followed (p q : A → Bool) : List A → Prop
  | [] => True
  | a :: as => (p a = true → ∃ b ∈ as.takeWhile (fun b => !p b), q b = true) ∧ Followed p q as

theorem exists_takeWhile_map_iff {p q : B → Bool} {f : A → B} {as : List A} :
    (∃ b ∈ (as.map f).takeWhile (fun b => !p b), q b = true) ↔
      ∃ a ∈ as.takeWhile (fun a => !p (f a)), q (f a) = true := by
  rw [List.takeWhile_map]
  simp [Function.comp_def]

theorem followed_map_iff {p q : B → Bool} {f : A → B} {as : List A} :
    Followed p q (as.map f) ↔ Followed (fun a => p (f a)) (fun a => q (f a)) as := by
  induction as with
  | nil => rfl
  | cons a as ih =>
    rw [List.map_cons, Followed, Followed, exists_takeWhile_map_iff, ih]

/-- Only which elements open and which close matters. -/
theorem followed_congr {p q : A → Bool} {p' q' : B → Bool} {as : List A} {bs : List B}
    (h : as.map (fun a => (p a, q a)) = bs.map fun b => (p' b, q' b)) :
    Followed p q as ↔ Followed p' q' bs := by
  have ha : Followed Prod.fst Prod.snd (as.map fun a => (p a, q a)) ↔ Followed p q as :=
    followed_map_iff
  have hb : Followed Prod.fst Prod.snd (bs.map fun b => (p' b, q' b)) ↔ Followed p' q' bs :=
    followed_map_iff
  rw [← ha, ← hb, h]

end Followed

/-! ## The sizes of the workers -/

/-- Which workers have a size. -/
def State.sizes (s : State) : List Bool := s.vSockets.map fun w => w.messageSize.isSome

/-- What an option does to the sizes: a new worker has none, and `-m` gives the last worker one. -/
def stepSizes (sizes : List Bool) (o : Opt) : List Bool :=
  if o.creates = true then sizes ++ [false]
  else if o.givesSize = true then sizes.modify (sizes.length - 1) fun _ => true
  else sizes

section Sizes

variable {net : Network} {s s' : State} {o : Opt} {opts : List Opt}

/-- An option that configures a worker leaves its seconds, and gives it a size or leaves it. -/
theorem configure_members {f : SocketWorker → SocketWorker} (hf : configure net o = .ok f)
    (w : SocketWorker) : (f w).seconds = w.seconds ∧
      (f w).messageSize.isSome = (o.givesSize || w.messageSize.isSome) := by
  cases o with
  | l text =>
    obtain ⟨ip, -, rfl⟩ := configure_l hf
    exact ⟨rfl, rfl⟩
  | i text =>
    obtain ⟨ip, -, rfl⟩ := configure_i hf
    exact ⟨rfl, rfl⟩
  | _ =>
    cases hf
    exact ⟨rfl, rfl⟩

theorem sizes_update {i : ℕ} {f : SocketWorker → SocketWorker} {g : Bool → Bool}
    (hf : ∀ w, (f w).messageSize.isSome = g w.messageSize.isSome) :
    (s.update i f).sizes = s.sizes.modify i g := by
  unfold State.sizes
  rw [State.update_vSockets]
  apply List.ext_getElem?
  intro k
  rw [List.getElem?_map, List.getElem?_modify, List.getElem?_modify, List.getElem?_map]
  cases s.vSockets[k]? with
  | none => rfl
  | some w =>
    by_cases hk : i = k
    · simp [hk, hf w]
    · simp [hk]

/-- **One iteration follows `stepSizes`.** -/
theorem sizes_step (h : step net s o = .ok s') : s'.sizes = stepSizes s.sizes o := by
  rcases step_cases h with ⟨ho, rfl⟩ | ⟨text, rfl, rfl⟩ | ⟨rfl, rfl⟩ | ⟨text, rfl, rfl⟩ |
    ⟨ho, hchange⟩
  · -- A new worker has no size.
    rw [stepSizes, if_pos ho, State.sizes, State.create_vSockets, List.map_append]
    rfl
  · rfl
  · rfl
  · rfl
  · have hlength : s.sizes.length = (s.psocket.map (· + 1)).getD 0 :=
      (List.length_map _).trans s.current
    rw [stepSizes, if_neg (not_creates_of_configures ho)]
    rcases withSocket_cases hchange with ⟨hnone, rfl⟩ | ⟨i, f, hi, hf, rfl⟩
    · -- There is no worker yet.
      rw [hnone] at hlength
      rw [List.eq_nil_of_length_eq_zero hlength]
      split_ifs <;> rfl
    · -- The current worker is the last one.
      rw [hi] at hlength
      have hlast : s.sizes.length - 1 = i := by
        rw [hlength]
        exact Nat.add_sub_cancel i 1
      rw [sizes_update fun w => (configure_members hf w).2, hlast]
      split_ifs with hsize
      · rw [hsize]
        rfl
      · rw [Bool.eq_false_iff.mpr hsize]
        exact List.modify_id i s.sizes

/-- **The loop follows `stepSizes`.** -/
theorem sizes_runFrom (h : runFrom net s opts = some s') :
    s'.sizes = opts.foldl stepSizes s.sizes := by
  induction opts generalizing s with
  | nil =>
    cases h
    rfl
  | cons o opts ih =>
    obtain ⟨s₁, ho, hrun⟩ := Option.bind_eq_some_iff.mp h
    rw [ih hrun, sizes_step (toOption_eq_some.mp ho), List.foldl_cons]

theorem stepSizes_snoc (hcreates : ¬ o.creates = true) (init : List Bool) (b : Bool) :
    stepSizes (init ++ [b]) o = init ++ [o.givesSize || b] := by
  rw [stepSizes, if_neg hcreates]
  split_ifs with hsize
  · rw [hsize, List.length_append, List.length_singleton, Nat.add_sub_cancel,
      List.modify_eq_take_drop, List.take_left, List.drop_left]
    rfl
  · rw [Bool.eq_false_iff.mpr hsize, Bool.false_or]

/-- **When all workers have a size in the end**: those before the last one have it already, the last
one has it or is given one before the next worker is opened, and so is every later one. -/
theorem all_foldl_stepSizes_iff (init : List Bool) (b : Bool) :
    (∀ x ∈ opts.foldl stepSizes (init ++ [b]), x = true) ↔
      (∀ x ∈ init, x = true) ∧
        (b = true ∨ ∃ o ∈ opts.takeWhile (fun o => !o.creates), o.givesSize = true) ∧
        Followed Opt.creates Opt.givesSize opts := by
  induction opts generalizing init b with
  | nil => simp [Followed, or_imp, forall_and]
  | cons o opts ih =>
    rw [List.foldl_cons, Followed]
    by_cases ho : o.creates = true
    · -- The last worker so far stays as it is.
      rw [stepSizes, if_pos ho, ih]
      simp [ho, or_imp, forall_and, and_assoc]
    · -- The option is for the last worker, and gives it a size or leaves it.
      rw [stepSizes_snoc ho, ih]
      simp [ho, or_assoc, or_comm]

theorem all_foldl_stepSizes_nil_iff :
    (∀ x ∈ opts.foldl stepSizes [], x = true) ↔ Followed Opt.creates Opt.givesSize opts := by
  induction opts with
  | nil => simp [Followed]
  | cons o opts ih =>
    rw [List.foldl_cons, Followed]
    by_cases ho : o.creates = true
    · have hstep : stepSizes [] o = [] ++ [false] := if_pos ho
      rw [hstep, all_foldl_stepSizes_iff]
      simp [ho]
    · have hstep : stepSizes [] o = [] := by
        rw [stepSizes, if_neg ho]
        split_ifs <;> rfl
      rw [hstep, ih]
      simp [ho]

end Sizes

/-! ## Command lines -/

section CommandLine

variable {net : Network} {iret : ℕ → BitVec 32} {argv : List CString} {s : State}

/-- The seconds are assigned when a worker is opened, and stay assigned. -/
theorem seconds_accepted {opts : List Opt} (h : accepted net opts = some s) :
    ∀ w ∈ s.vSockets, w.seconds.isSome = true := by
  refine run_preserves (P := fun s => ∀ w ∈ s.vSockets, w.seconds.isSome = true)
    (fun o _ s s' hs hstep => ?_) (fun w hw => absurd hw List.not_mem_nil) h
  rcases step_cases (toOption_eq_some.mp hstep) with ⟨ho, rfl⟩ | ⟨text, rfl, rfl⟩ | ⟨rfl, rfl⟩ |
    ⟨text, rfl, rfl⟩ | ⟨ho, hchange⟩
  · intro w hw
    rcases List.mem_append.mp hw with hw | hw
    · exact hs w hw
    · rw [List.mem_singleton.mp hw]
      rfl
  · exact hs
  · exact hs
  · exact hs
  · rcases withSocket_cases hchange with ⟨-, rfl⟩ | ⟨i, f, -, hf, rfl⟩
    · exact hs
    · intro w hw
      obtain ⟨k, hk⟩ := List.mem_iff_getElem?.mp hw
      rw [State.update_vSockets, List.getElem?_modify, Option.map_eq_map,
        Option.map_eq_some_iff] at hk
      obtain ⟨v, hv, hw⟩ := hk
      have hsec := hs v (List.mem_of_getElem? hv)
      split_ifs at hw
      · rw [← hw, (configure_members hf v).1]
        exact hsec
      · exact hw ▸ hsec

theorem parse_letters {arg : CString} {o : Opt} (h : parse arg = .ok o) :
    (o.creates, o.givesSize) = (opensWorker arg, givesSize arg) := by
  unfold parse at h
  split at h <;> cases h <;> rfl

theorem map_letters {args : List CString} {opts : List Opt} (h : args.mapM parse = .ok opts) :
    opts.map (fun o => (o.creates, o.givesSize)) =
      args.map fun arg => (opensWorker arg, givesSize arg) := by
  induction args generalizing opts with
  | nil =>
    cases h
    rfl
  | cons arg args ih =>
    rw [List.mapM_cons] at h
    obtain ⟨o, ho, h⟩ := bind_eq_ok.mp h
    obtain ⟨opts, hopts, h⟩ := bind_eq_ok.mp h
    cases h
    rw [List.map_cons, List.map_cons, ih hopts, parse_letters ho]

/-- A loop that does not end early starts all workers. -/
theorem startLoop_none {ws started : List SocketWorker} {k : ℕ}
    (h : startLoop net iret k ws = (started, none)) : started = ws := by
  induction ws generalizing k started with
  | nil =>
    cases h
    rfl
  | cons w ws ih =>
    rw [startLoop] at h
    cases hprint : w.vLocalIP.mapM (IPAddress.tostring net) with
    | error stop =>
      rw [hprint] at h
      cases h
    | ok texts =>
      rw [hprint] at h
      dsimp only at h
      split_ifs at h with hret
      · cases h
      · obtain ⟨rfl, hnone⟩ := Prod.mk.inj h
        have hrest : startLoop net iret (k + 1) ws = ((startLoop net iret (k + 1) ws).1, none) :=
          Prod.ext rfl hnone
        exact congrArg (w :: ·) (ih hrest)

/-- The workers of a command line that is accepted. -/
theorem configured_of_accepted_iff {opts : List Opt} (h : accepted net opts = some s) :
    (∀ w ∈ s.vSockets, Configured w) ↔ Followed Opt.creates Opt.givesSize opts := by
  have hsizes : s.sizes = opts.foldl stepSizes [] := sizes_runFrom h
  rw [← all_foldl_stepSizes_nil_iff, ← hsizes]
  constructor
  · intro hall x hx
    obtain ⟨w, hw, rfl⟩ := List.mem_map.mp hx
    exact (hall w hw).messageSize
  · intro hall w hw
    exact ⟨seconds_accepted h w hw, hall _ (List.mem_map_of_mem hw)⟩

/-- **When all started workers are configured**: if every argument that opens a worker is followed by
one that gives the size of the messages, before the next worker is opened. -/
theorem configured_iff {started : List SocketWorker} (h : main net iret argv = (started, none)) :
    (∀ w ∈ started, Configured w) ↔ Followed opensWorker givesSize argv.tail := by
  unfold main at h
  cases hloop : optionLoop net argv with
  | error stop =>
    rw [hloop] at h
    cases h
  | ok s =>
    rw [hloop] at h
    obtain rfl := startLoop_none h
    obtain ⟨opts, hparse, haccepted⟩ := (optionLoop_ok_iff net argv s).mp hloop
    rw [configured_of_accepted_iff haccepted]
    exact followed_congr (map_letters hparse)

end CommandLine

theorem configured_sized :
    (∀ w ∈ (main offline (fun _ => 0) ["options".toList, "-t".toList, "-m512".toList]).1,
      Configured w) ↔ Followed opensWorker givesSize ["-t".toList, "-m512".toList] :=
  configured_iff (Prod.ext rfl rfl)

/-- A sender without `-m` is started without a size for its messages. -/
theorem not_configured_unsized :
    ∃ started, main offline (fun _ => 0) ["options".toList, "-t".toList] = (started, none) ∧
      ¬ ∀ w ∈ started, Configured w := by
  refine ⟨_, rfl, fun hall => ?_⟩
  have hsize := (hall _ List.mem_cons_self).messageSize
  cases hsize

end LinuxTest.Ethernet.Options
