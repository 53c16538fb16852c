import LinuxTest.Ethernet.Options

/-!
# Locality of the options of the traffic tool

Which command lines of the traffic tool configure each worker by its own options alone. An option
that is specific to the current worker is compared with the same command line without it: it should
set its member of the worker it stands behind, and leave every other worker as it was. All such
options do, but `-b`, which is documented as one of them and sets the variable that workers opened
later start from.

## Main definitions

* `Sets net o v w`: the worker `w` is `v` with the member of the option `o` set
* `Local net opts`: the options that are specific to the current worker are local

## Main results

* `Related.step`, `runFrom_sets`: an option that configures a worker stays confined to it
* `local_of_no_b`, `not_local_of_b`: the two sides of the condition
* `local_iff`: a command line is local if and only if it has no `-b` or opens no worker
-/

namespace LinuxTest.Ethernet.Options

open Foundations

/-- The letter of an option. -/
def Opt.letter : Opt → Char
  | .t => 't'
  | .r => 'r'
  | .m _ => 'm'
  | .s => 's'
  | .six => '6'
  | .l _ => 'l'
  | .b _ => 'b'
  | .i _ => 'i'
  | .a _ => 'a'
  | .x _ => 'x'
  | .T => 'T'
  | .e => 'e'
  | .R => 'R'
  | .u => 'u'
  | .n => 'n'
  | .S _ => 'S'

/-- The options that the comments of the source, or their handling, make specific to the current
worker. -/
def Opt.threadSpecific : Opt → Bool
  | .t | .r | .R | .S _ => false
  | _ => true

/-- A later option that sets the same single-valued member again. -/
def Opt.overrides : Opt → Opt → Bool
  | .m _, .m _ | .b _, .b _ | .a _, .a _ | .x _, .x _ => true
  | _, _ => false

/-- The worker `w` is `v` with the member of the option `o` set: replaced, or for an address
inserted. -/
def Sets (net : Network) (o : Opt) (v w : SocketWorker) : Prop :=
  match o with
  | .m text => w = { v with messageSize := some (atoi text) }
  | .s => w = { v with bStats := true }
  | .six => w = { v with bForceIPv6 := true }
  | .l text => ∃ ip before after, address net text = .ok ip ∧ v.vLocalIP = before ++ after ∧
      w = { v with vLocalIP := before ++ ip :: after }
  | .b text => w = { v with sockbufsize := some (atoi text) }
  | .i text => ∃ ip before after, address net text = .ok ip ∧ v.vDestIP = before ++ after ∧
      w = { v with vDestIP := before ++ ip :: after }
  | .a text => w = { v with affinity := some (atoi text) }
  | .x text => w = { v with priority := some (atoi text) }
  | .T => w = { v with bTouch := true }
  | .e => w = { v with bEcho := true }
  | .u => w = { v with bNoUdpChecksum := true }
  | .n => w = { v with bNoTcpDelay := true }
  | .t | .r | .R | .S _ => False

/-- The options specific to the current worker are local. Take such an option, with any text for its
letter that is accepted in its place. Compared with the command line without it, every worker but the
current one is the same, and the current one, if there is one, has its member set, unless the option
is overridden before the next worker is opened. -/
def Local (net : Network) (opts : List Opt) : Prop :=
  ∀ pre o post, opts = pre ++ o :: post → o.threadSpecific = true →
    ∀ o', o'.letter = o.letter → ∀ s, accepted net (pre ++ o' :: post) = some s →
      ∃ t, accepted net (pre ++ post) = some t ∧
        (∀ k, k + 1 ≠ creations pre → s.vSockets[k]? = t.vSockets[k]?) ∧
        ∀ j, creations pre = j + 1 →
          (∀ q ∈ post.takeWhile (fun q => !q.creates), q.overrides o' = false) →
          ∃ v w, t.vSockets[j]? = some v ∧ s.vSockets[j]? = some w ∧ Sets net o' v w

/-! ## Options that configure a worker are confined to it -/

section Confined

variable {net : Network} {P : SocketWorker → SocketWorker → Prop} {j : ℕ} {s t s' : State} {o q : Opt}

/-- Two states that differ in one worker only, where they are related by `P`. -/
structure Related (P : SocketWorker → SocketWorker → Prop) (j : ℕ) (s t : State) : Prop where
  psocket : s.psocket = t.psocket
  seconds : s.seconds = t.seconds
  sockbufsize : s.sockbufsize = t.sockbufsize
  others : ∀ k, k ≠ j → s.vSockets[k]? = t.vSockets[k]?
  own : ∃ v w, t.vSockets[j]? = some v ∧ s.vSockets[j]? = some w ∧ P v w

theorem Related.length_eq (h : Related P j s t) : s.vSockets.length = t.vSockets.length := by
  rw [s.current, t.current, h.psocket]

theorem Related.lt_length (h : Related P j s t) : j < s.vSockets.length := by
  obtain ⟨v, w, -, hw, -⟩ := h.own
  exact (List.getElem?_eq_some_iff.mp hw).1

theorem Related.create (h : Related P j s t) (type : ℕ) :
    Related P j (s.create type) (t.create type) := by
  obtain ⟨v, w, hv, hw, hP⟩ := h.own
  refine ⟨?_, h.seconds, h.sockbufsize, ?_, v, w, ?_, ?_, hP⟩
  · exact congrArg some h.length_eq
  · -- Both sides open the same worker, behind the one that differs.
    intro k hk
    simp only [State.create_vSockets, State.opened, h.seconds, h.sockbufsize, List.getElem?_append,
      h.length_eq, h.others k hk]
  · exact (List.getElem?_append_left (h.length_eq ▸ h.lt_length)).trans hv
  · exact (List.getElem?_append_left h.lt_length).trans hw

/-- Changing the current worker on both sides, with a change that keeps `P` if it falls on the
worker in question. -/
theorem Related.update (h : Related P j s t) {i : ℕ} {f : SocketWorker → SocketWorker}
    (hP : i = j → ∀ v w, P v w → P (f v) (f w)) : Related P j (s.update i f) (t.update i f) := by
  obtain ⟨v, w, hv, hw, hvw⟩ := h.own
  refine ⟨h.psocket, h.seconds, h.sockbufsize, ?_, ?_⟩
  · intro k hk
    simp only [State.update_vSockets, List.getElem?_modify, h.others k hk]
  · simp only [State.update_vSockets, List.getElem?_modify, hv, hw]
    by_cases hij : i = j
    · exact ⟨f v, f w, by simp [hij], by simp [hij], hP hij v w hvw⟩
    · exact ⟨v, w, by simp [hij], by simp [hij], hvw⟩

/-- **One iteration keeps two states related**, if what it does to the worker in question keeps
`P`. -/
theorem Related.step (h : Related P j s t)
    (hP : ∀ f, s.psocket = some j → configure net q = .ok f → ∀ v w, P v w → P (f v) (f w))
    (hstep : step net s q = .ok s') : ∃ t', Options.step net t q = .ok t' ∧ Related P j s' t' := by
  rcases step_cases hstep with ⟨hq, rfl⟩ | ⟨text, rfl, rfl⟩ | ⟨rfl, rfl⟩ | ⟨text, rfl, rfl⟩ |
    ⟨hq, hchange⟩
  · exact ⟨t.create q.type, step_creates hq, h.create q.type⟩
  · exact ⟨{ t with sockbufsize := atoi text }, rfl, h.psocket, h.seconds, rfl, h.others, h.own⟩
  · exact ⟨t, rfl, h⟩
  · exact ⟨{ t with seconds := atoi text }, rfl, h.psocket, rfl, h.sockbufsize, h.others, h.own⟩
  · -- The current worker has the same index on both sides.
    rw [step_configures hq]
    rcases withSocket_congr h.psocket hchange with ⟨rfl, ht⟩ | ⟨i, f, hi, hf, rfl, ht⟩
    · exact ⟨t, ht, h⟩
    · exact ⟨t.update i f, ht, h.update fun hij => hP f (by rw [hi, hij]) hf⟩

/-! ### Setting a member -/

/-- The address that `-l` or `-i` builds. -/
theorem configure_l {text : CString} {f : SocketWorker → SocketWorker}
    (h : configure net (.l text) = .ok f) :
    ∃ ip, address net text = .ok ip ∧ f = fun w => { w with vLocalIP := w.vLocalIP ++ [ip] } := by
  obtain ⟨ip, hip, hrest⟩ := bind_eq_ok.mp h
  obtain ⟨-, -, hf⟩ := bind_eq_ok.mp hrest
  exact ⟨ip, hip, (Except.ok.inj hf).symm⟩

@[inherit_doc configure_l]
theorem configure_i {text : CString} {f : SocketWorker → SocketWorker}
    (h : configure net (.i text) = .ok f) :
    ∃ ip, address net text = .ok ip ∧ f = fun w => { w with vDestIP := w.vDestIP ++ [ip] } := by
  obtain ⟨ip, hip, hf⟩ := bind_eq_ok.mp h
  exact ⟨ip, hip, (Except.ok.inj hf).symm⟩

/-- An option that configures a worker sets its member. -/
theorem sets_configure (ho : o.configures = true) {f : SocketWorker → SocketWorker}
    (hf : configure net o = .ok f) (v : SocketWorker) : Sets net o v (f v) := by
  cases o with
  | l text =>
    obtain ⟨ip, hip, rfl⟩ := configure_l hf
    exact ⟨ip, v.vLocalIP, [], hip, (List.append_nil _).symm, rfl⟩
  | i text =>
    obtain ⟨ip, hip, rfl⟩ := configure_i hf
    exact ⟨ip, v.vDestIP, [], hip, (List.append_nil _).symm, rfl⟩
  | t | r | b _ | R | S _ => cases ho
  | _ =>
    cases hf
    rfl

/-- A later option that does not override an earlier one keeps its member set. -/
theorem Sets.configure (ho : o.configures = true) (hover : q.overrides o = false)
    {f : SocketWorker → SocketWorker} (hf : configure net q = .ok f) {v w : SocketWorker}
    (h : Sets net o v w) : Sets net o (f v) (f w) := by
  -- Read off what the later option does, then compare it with each earlier one.
  cases q with
  | l text =>
    obtain ⟨ip, -, rfl⟩ := configure_l hf
    cases o with
    | l text' =>
      obtain ⟨ip', before, after, hip', hv, rfl⟩ := h
      exact ⟨ip', before, after ++ [ip], hip', by simp [hv], by simp⟩
    | i text' =>
      obtain ⟨ip', before, after, hip', hv, rfl⟩ := h
      exact ⟨ip', before, after, hip', hv, rfl⟩
    | t | r | b _ | R | S _ => cases ho
    | _ =>
      cases h
      rfl
  | i text =>
    obtain ⟨ip, -, rfl⟩ := configure_i hf
    cases o with
    | i text' =>
      obtain ⟨ip', before, after, hip', hv, rfl⟩ := h
      exact ⟨ip', before, after ++ [ip], hip', by simp [hv], by simp⟩
    | l text' =>
      obtain ⟨ip', before, after, hip', hv, rfl⟩ := h
      exact ⟨ip', before, after, hip', hv, rfl⟩
    | t | r | b _ | R | S _ => cases ho
    | _ =>
      cases h
      rfl
  | _ =>
    cases hf
    cases o with
    | l text' | i text' =>
      obtain ⟨ip', before, after, hip', hv, rfl⟩ := h
      exact ⟨ip', before, after, hip', hv, rfl⟩
    | t | r | b _ | R | S _ => cases ho
    | _ =>
      cases h
      first | rfl | cases hover

end Confined

/-! ## Runs from states that differ in one worker -/

section Runs

variable {net : Network} {j : ℕ} {s t s' t' : State} {o : Opt} {opts : List Opt}

/-- **Every run keeps the other workers apart from the one that differs.** -/
theorem exists_runFrom_others {P : SocketWorker → SocketWorker → Prop} (h : Related P j s t)
    (hrun : runFrom net s opts = some s') :
    ∃ t', runFrom net t opts = some t' ∧ ∀ k, k ≠ j → s'.vSockets[k]? = t'.vSockets[k]? := by
  obtain ⟨v, w, hv, hw, -⟩ := h.own
  have hrel : Related (fun _ _ => True) j s t :=
    ⟨h.psocket, h.seconds, h.sockbufsize, h.others, v, w, hv, hw, trivial⟩
  obtain ⟨t', ht', hrel'⟩ := exists_run_of_simulation (R := Related (fun _ _ => True) j)
    (by
      intro s t q s' hst hstep
      obtain ⟨t', ht', hst'⟩ := hst.step (fun _ _ _ _ _ _ => trivial) (toOption_eq_some.mp hstep)
      exact ⟨t', toOption_eq_some.mpr ht', hst'⟩)
    hrel hrun
  exact ⟨t', ht', hrel'.others⟩

/-- **Every run keeps a member set**, unless it is overridden while its worker is the current one. -/
theorem runFrom_sets (ho : o.configures = true) (h : Related (Sets net o) j s t)
    (hover : s.psocket = some j →
      ∀ q ∈ opts.takeWhile (fun q => !q.creates), q.overrides o = false)
    (hs : runFrom net s opts = some s') (ht : runFrom net t opts = some t') :
    Related (Sets net o) j s' t' := by
  induction opts generalizing s t with
  | nil =>
    cases hs
    cases ht
    exact h
  | cons q opts ih =>
    obtain ⟨s₁, hq, hs⟩ := Option.bind_eq_some_iff.mp hs
    obtain ⟨t₁, hq', ht⟩ := Option.bind_eq_some_iff.mp ht
    have hstep := toOption_eq_some.mp hq
    have hkeep : ∀ f, s.psocket = some j → configure net q = .ok f →
        ∀ v w, Sets net o v w → Sets net o (f v) (f w) := by
      intro f hcur hf v w hvw
      -- An option that opens a worker leaves the current one alone.
      by_cases hcreates : q.creates = true
      · obtain rfl : f = id := by
          cases q <;> first | exact (Except.ok.inj hf).symm | cases hcreates
        exact hvw
      · refine hvw.configure ho (hover hcur q ?_) hf
        simp [hcreates]
    obtain ⟨t₂, ht₂, h₁⟩ := h.step hkeep hstep
    obtain rfl : t₁ = t₂ := Except.ok.inj ((toOption_eq_some.mp hq').symm.trans ht₂)
    refine ih h₁ ?_ hs ht
    intro hcur
    rw [psocket_step hstep] at hcur
    by_cases hcreates : q.creates = true
    · -- The worker in question is no longer the last one.
      rw [if_pos hcreates] at hcur
      have hlt := h.lt_length
      have heq := Option.some.inj hcur
      omega
    · rw [if_neg hcreates] at hcur
      intro q' hq'
      exact hover hcur q' (by simp [hcreates, hq'])

/-- The current worker after a run. -/
theorem psocket_of_length {k : ℕ} (h : s.vSockets.length = k + 1) : s.psocket = some k := by
  have hcur := s.current
  rw [h] at hcur
  cases hp : s.psocket with
  | none =>
    rw [hp] at hcur
    simp at hcur
  | some i =>
    rw [hp] at hcur
    simp at hcur
    rw [hcur]

end Runs

/-! ## Command lines without `-b` are local -/

section Sufficient

variable {net : Network} {pre post : List Opt} {o : Opt} {s : State}

/-- An accepted command line, split at one option. -/
theorem accepted_split (h : accepted net (pre ++ o :: post) = some s) :
    ∃ s₀ s₁, accepted net pre = some s₀ ∧ step net s₀ o = .ok s₁ ∧
      runFrom net s₁ post = some s := by
  rw [accepted, runFrom, run_append] at h
  obtain ⟨s₀, hpre, h⟩ := Option.bind_eq_some_iff.mp h
  obtain ⟨s₁, ho, hpost⟩ := Option.bind_eq_some_iff.mp h
  exact ⟨s₀, s₁, hpre, toOption_eq_some.mp ho, hpost⟩

theorem accepted_append {s₀ : State} (hpre : accepted net pre = some s₀) :
    accepted net (pre ++ post) = runFrom net s₀ post := by
  unfold accepted runFrom at hpre ⊢
  rw [run_append, hpre]
  rfl

/-- **An option that configures a worker is local.** -/
theorem configures_local (ho : o.configures = true)
    (h : accepted net (pre ++ o :: post) = some s) :
    ∃ t, accepted net (pre ++ post) = some t ∧
      (∀ k, k + 1 ≠ creations pre → s.vSockets[k]? = t.vSockets[k]?) ∧
      ∀ j, creations pre = j + 1 →
        (∀ q ∈ post.takeWhile (fun q => !q.creates), q.overrides o = false) →
        ∃ v w, t.vSockets[j]? = some v ∧ s.vSockets[j]? = some w ∧ Sets net o v w := by
  obtain ⟨s₀, s₁, hpre, hstep, hpost⟩ := accepted_split h
  have hlen : s₀.vSockets.length = creations pre := by
    simpa [State.init] using length_runFrom hpre
  rw [step_configures ho] at hstep
  rw [accepted_append hpre]
  rcases withSocket_cases hstep with ⟨hnone, rfl⟩ | ⟨i, f, hi, hf, rfl⟩
  · -- No worker is open yet, and the option does nothing.
    refine ⟨s, hpost, fun k _ => rfl, ?_⟩
    intro j hj
    rw [psocket_of_length (hlen.trans hj)] at hnone
    cases hnone
  · -- The option changes worker `i` only, which is the last one.
    have hlen' : s₀.vSockets.length = i + 1 := by
      rw [s₀.current, hi]
      rfl
    obtain ⟨v, hv⟩ : ∃ v, s₀.vSockets[i]? = some v :=
      ⟨_, List.getElem?_eq_getElem (show i < s₀.vSockets.length by omega)⟩
    have hrel : Related (Sets net o) i (s₀.update i f) s₀ := by
      refine ⟨rfl, rfl, rfl, ?_, v, f v, hv, ?_, sets_configure ho hf v⟩
      · intro k hk
        simp [Ne.symm hk]
      · simp [hv]
    obtain ⟨t, ht, hothers⟩ := exists_runFrom_others hrel hpost
    refine ⟨t, ht, fun k hk => hothers k (by omega), ?_⟩
    intro j hj hover
    obtain rfl : j = i := by omega
    exact (runFrom_sets ho hrel (fun _ => hover) hpost ht).own

/-- The options specific to the current worker, apart from `-b`, configure it. -/
theorem configures_of_threadSpecific {o' : Opt} (hspecific : o.threadSpecific = true)
    (hletter : o'.letter = o.letter) (hb : ∀ text, o ≠ .b text) : o'.configures = true := by
  cases o with
  | b text => exact absurd rfl (hb text)
  | t | r | R | S _ => cases hspecific
  | _ => cases o' <;> first | rfl | exact absurd hletter (by simp [Opt.letter])

/-- **Command lines without `-b` are local.** -/
theorem local_of_no_b {opts : List Opt} (hb : ∀ text, .b text ∉ opts) : Local net opts := by
  rintro pre o post rfl hspecific o' hletter s hs
  refine configures_local (configures_of_threadSpecific hspecific hletter ?_) hs
  rintro text rfl
  exact hb text (by simp)

end Sufficient

/-! ## What `-b` does -/

section BufferSize

variable {net : Network} {s t s' : State} {opts pre post : List Opt} {text : CString}

/-- Whether options are accepted depends on the current worker only. -/
theorem exists_runFrom_of_psocket (hrun : runFrom net s opts = some s') (t : State)
    (h : s.psocket = t.psocket) : ∃ t', runFrom net t opts = some t' := by
  have hsim : ∀ (s t : State) (q : Opt) (s' : State), s.psocket = t.psocket →
      (step net s q).toOption = some s' →
      ∃ t', (step net t q).toOption = some t' ∧ s'.psocket = t'.psocket := by
    intro s t q s' hst hstep
    have hstep' := toOption_eq_some.mp hstep
    obtain ⟨t', ht'⟩ : ∃ t', step net t q = .ok t' := by
      rcases step_cases hstep' with ⟨hq, -⟩ | ⟨text, rfl, -⟩ | ⟨rfl, -⟩ | ⟨text, rfl, -⟩ |
        ⟨hq, hchange⟩
      · exact ⟨_, step_creates hq⟩
      · exact ⟨_, rfl⟩
      · exact ⟨_, rfl⟩
      · exact ⟨_, rfl⟩
      · rw [step_configures hq]
        rcases withSocket_congr hst hchange with ⟨-, ht⟩ | ⟨i, f, -, -, -, ht⟩
        · exact ⟨t, ht⟩
        · exact ⟨t.update i f, ht⟩
    refine ⟨t', toOption_eq_some.mpr ht', ?_⟩
    rw [psocket_step hstep', psocket_step ht', hst, s.current, t.current, hst]
  obtain ⟨t', ht', -⟩ := exists_run_of_simulation hsim h hrun
  exact ⟨t', ht'⟩

/-- Options that configure a worker leave its buffer size alone. -/
theorem configure_sockbufsize {q : Opt} {f : SocketWorker → SocketWorker}
    (hf : configure net q = .ok f) (w : SocketWorker) : (f w).sockbufsize = w.sockbufsize := by
  cases q with
  | l text =>
    obtain ⟨ip, -, rfl⟩ := configure_l hf
    rfl
  | i text =>
    obtain ⟨ip, -, rfl⟩ := configure_i hf
    rfl
  | _ =>
    cases hf
    rfl

/-- The worker `j` exists and has the buffer size `size`. -/
def HasBuffer (j : ℕ) (size : Option (BitVec 32)) (s : State) : Prop :=
  ∃ w, s.vSockets[j]? = some w ∧ w.sockbufsize = size

/-- The buffer size of a worker is fixed when it is opened. -/
theorem HasBuffer.step {j : ℕ} {size : Option (BitVec 32)} {q : Opt} (h : HasBuffer j size s)
    (hstep : step net s q = .ok s') : HasBuffer j size s' := by
  obtain ⟨w, hw, hsize⟩ := h
  have hlt := (List.getElem?_eq_some_iff.mp hw).1
  rcases step_cases hstep with ⟨hq, rfl⟩ | ⟨text, rfl, rfl⟩ | ⟨rfl, rfl⟩ | ⟨text, rfl, rfl⟩ |
    ⟨hq, hchange⟩
  · exact ⟨w, (List.getElem?_append_left hlt).trans hw, hsize⟩
  · exact ⟨w, hw, hsize⟩
  · exact ⟨w, hw, hsize⟩
  · exact ⟨w, hw, hsize⟩
  · rcases withSocket_cases hchange with ⟨-, rfl⟩ | ⟨i, f, -, hf, rfl⟩
    · exact ⟨w, hw, hsize⟩
    · by_cases hij : i = j
      · exact ⟨f w, by simp [hij, hw], (configure_sockbufsize hf w).trans hsize⟩
      · exact ⟨w, by simp [hij, hw], hsize⟩

theorem HasBuffer.runFrom {j : ℕ} {size : Option (BitVec 32)} (h : HasBuffer j size s)
    (hrun : runFrom net s opts = some s') : HasBuffer j size s' :=
  run_preserves (fun _ _ _ _ hs hstep => hs.step (toOption_eq_some.mp hstep)) h hrun

/-- A worker has one buffer size. -/
theorem HasBuffer.unique {j : ℕ} {size size' : Option (BitVec 32)} (h : HasBuffer j size s)
    (h' : HasBuffer j size' s) : size = size' := by
  obtain ⟨w, hw, rfl⟩ := h
  obtain ⟨w', hw', rfl⟩ := h'
  rw [Option.some.inj (hw.symm.trans hw')]

/-- No buffer size is the one that every text asks for. -/
theorem not_forall_eq_atoi (size : Option (BitVec 32)) : ¬ ∀ text, size = some (atoi text) := by
  intro h
  have htwo : atoi ['1'] ≠ atoi ['2'] := by decide
  exact htwo (Option.some.inj ((h ['1']).symm.trans (h ['2'])))

/-- The first worker takes the buffer size that the loop had when no `-b` was left. -/
theorem hasBuffer_first (hb : ∀ text, .b text ∉ opts) (hs : s.vSockets = [])
    (hcreate : 0 < creations opts) (hrun : Options.runFrom net s opts = some s') :
    HasBuffer 0 (some s.sockbufsize) s' := by
  have hinv : s'.sockbufsize = s.sockbufsize ∧
      (s'.vSockets = [] ∨ HasBuffer 0 (some s.sockbufsize) s') := by
    refine run_preserves (P := fun u => u.sockbufsize = s.sockbufsize ∧
      (u.vSockets = [] ∨ HasBuffer 0 (some s.sockbufsize) u)) ?_ ⟨rfl, Or.inl hs⟩ hrun
    rintro q hq u u' ⟨hsize, hu⟩ hstep
    have hstep' := toOption_eq_some.mp hstep
    have hkept : HasBuffer 0 (some s.sockbufsize) u → HasBuffer 0 (some s.sockbufsize) u' :=
      fun hbuf => hbuf.step hstep'
    rcases step_cases hstep' with ⟨-, rfl⟩ | ⟨text, rfl, rfl⟩ | ⟨rfl, rfl⟩ | ⟨text, rfl, rfl⟩ |
      ⟨-, hchange⟩
    · -- A worker that is opened first takes the variable of the loop.
      refine ⟨hsize, Or.inr ?_⟩
      rcases hu with hnil | hbuf
      · exact ⟨u.opened q.type, by simp [hnil], congrArg some hsize⟩
      · exact hkept hbuf
    · exact absurd hq (hb text)
    · exact ⟨hsize, hu⟩
    · exact ⟨hsize, hu.imp id hkept⟩
    · rcases withSocket_cases hchange with ⟨-, rfl⟩ | ⟨i, f, -, -, rfl⟩
      · exact ⟨hsize, hu⟩
      · exact ⟨hsize, hu.imp (fun hnil => by simp [hnil]) hkept⟩
  refine hinv.2.resolve_left fun hnil => ?_
  have hlen := length_runFrom hrun
  rw [hnil, hs] at hlen
  simp only [List.length_nil] at hlen
  omega

/-- A list with an element of a kind has a last one. -/
theorem exists_last_b (h : ∃ text, .b text ∈ opts) :
    ∃ pre text post, opts = pre ++ .b text :: post ∧ ∀ text', .b text' ∉ post := by
  induction opts with
  | nil => exact absurd h (by simp)
  | cons o opts ih =>
    -- Take the last one of the rest, if it has one.
    by_cases hlater : ∃ text, .b text ∈ opts
    · obtain ⟨pre, text, post, rfl, hpost⟩ := ih hlater
      exact ⟨o :: pre, text, post, rfl, hpost⟩
    · obtain ⟨text, htext⟩ := h
      rcases List.mem_cons.mp htext with rfl | hmem
      · exact ⟨[], text, opts, rfl, fun text' hmem => hlater ⟨text', hmem⟩⟩
      · exact absurd ⟨text, hmem⟩ hlater

/-- Any text is accepted in the place of an accepted `-b`. -/
theorem exists_accepted_b (h : accepted net (pre ++ .b text :: post) = some s) (text' : CString) :
    ∃ s₀ s', accepted net pre = some s₀ ∧
      runFrom net { s₀ with sockbufsize := atoi text' } post = some s' ∧
      accepted net (pre ++ .b text' :: post) = some s' := by
  obtain ⟨s₀, s₁, hpre, hstep, hpost⟩ := accepted_split h
  cases hstep
  obtain ⟨s', hs'⟩ := exists_runFrom_of_psocket hpost { s₀ with sockbufsize := atoi text' } rfl
  refine ⟨s₀, s', hpre, hs', ?_⟩
  rw [accepted_append hpre]
  exact hs'

/-- Without a worker, `-b` has nothing to change. -/
theorem local_of_no_worker (hc : ∀ o ∈ opts, o.creates = false) : Local net opts := by
  rintro pre o post rfl hspecific o' hletter s hs
  by_cases hb : ∃ text, o = .b text
  · obtain ⟨text, rfl⟩ := hb
    obtain ⟨text', rfl⟩ : ∃ text', o' = .b text' := by
      cases o' with
      | b text' => exact ⟨text', rfl⟩
      | _ => exact absurd hletter (by simp [Opt.letter])
    -- No worker is opened, with or without the option.
    have hzero : ∀ l : List Opt, (∀ o ∈ l, o.creates = false) → creations l = 0 := by
      intro l hl
      rw [creations, List.countP_eq_zero]
      intro o ho
      simp [hl o ho]
    have hpre := hzero pre fun o ho => hc o (by simp [ho])
    have hpost := hzero post fun o ho => hc o (by simp [ho])
    obtain ⟨s₀, s₁, hpre', hstep, hrun⟩ := accepted_split hs
    cases hstep
    obtain ⟨t, ht⟩ := exists_runFrom_of_psocket hrun s₀ rfl
    have hs₀ : s₀.vSockets.length = 0 := by
      simpa [State.init, hpre] using length_runFrom hpre'
    have hlens : s.vSockets.length = 0 := by
      simpa [hs₀, hpost] using length_runFrom hrun
    have hlent : t.vSockets.length = 0 := by
      simpa [hs₀, hpost] using length_runFrom ht
    refine ⟨t, (accepted_append hpre').trans ht, ?_, ?_⟩
    · intro k _
      rw [List.eq_nil_of_length_eq_zero hlens, List.eq_nil_of_length_eq_zero hlent]
    · intro j hj
      rw [hpre] at hj
      cases hj
  · refine configures_local (configures_of_threadSpecific hspecific hletter ?_) hs
    intro text heq
    exact hb ⟨text, heq⟩

/-- With no worker before it, the last `-b` reaches a worker that is opened after it. -/
theorem not_local_of_b_before (hacc : accepted net (pre ++ .b text :: post) = some s)
    (hpost : ∀ text', .b text' ∉ post) (hcount : creations pre = 0) (hcreate : 0 < creations post) :
    ¬ Local net (pre ++ .b text :: post) := by
  intro hlocal
  obtain ⟨t, ht, -, -⟩ := hlocal pre _ post rfl rfl (.b text) rfl s hacc
  -- The first worker takes the text of the option, but is the same as without the option.
  have hsize : ∀ text', HasBuffer 0 (some (atoi text')) t := by
    intro text'
    obtain ⟨s₀, s', hpre, hrun, hacc'⟩ := exists_accepted_b hacc text'
    have hnil : s₀.vSockets = [] :=
      List.eq_nil_of_length_eq_zero (by simpa [State.init, hcount] using length_runFrom hpre)
    obtain ⟨w, hw, hsize⟩ := hasBuffer_first hpost (s := { s₀ with sockbufsize := atoi text' })
      hnil hcreate hrun
    obtain ⟨t', ht', hframe, -⟩ := hlocal pre _ post rfl rfl (.b text') rfl s' hacc'
    obtain rfl : t = t' := Option.some.inj (ht.symm.trans ht')
    exact ⟨w, (hframe 0 (by omega)).symm.trans hw, hsize⟩
  exact not_forall_eq_atoi _ fun text' => (hsize text).unique (hsize text')

/-- Behind a worker, the last `-b` does not reach it. -/
theorem not_local_of_b_behind (hacc : accepted net (pre ++ .b text :: post) = some s)
    (hpost : ∀ text', .b text' ∉ post) {j : ℕ} (hcount : creations pre = j + 1) :
    ¬ Local net (pre ++ .b text :: post) := by
  intro hlocal
  obtain ⟨s₀, -, hpre, -, -⟩ := exists_accepted_b hacc text
  have hlen : s₀.vSockets.length = j + 1 := by
    simpa [State.init, hcount] using length_runFrom hpre
  have hbuffer : HasBuffer j (s₀.vSockets.get ⟨j, by omega⟩).sockbufsize s₀ :=
    ⟨_, List.getElem?_eq_getElem (by omega), rfl⟩
  refine not_forall_eq_atoi (s₀.vSockets.get ⟨j, by omega⟩).sockbufsize fun text' => ?_
  obtain ⟨s₀', s', hpre', hrun, hacc'⟩ := exists_accepted_b hacc text'
  obtain rfl : s₀ = s₀' := Option.some.inj (hpre.symm.trans hpre')
  -- The worker has its size before the option, and keeps it to the end.
  have hkept : HasBuffer j (s₀.vSockets.get ⟨j, by omega⟩).sockbufsize
      { s₀ with sockbufsize := atoi text' } := hbuffer
  have hover : ∀ q ∈ post.takeWhile (fun q => !q.creates), q.overrides (.b text') = false := by
    intro q hq
    cases q with
    | b text'' => exact absurd ((List.takeWhile_prefix _).subset hq) (hpost text'')
    | _ => rfl
  obtain ⟨t, -, -, hset⟩ := hlocal pre _ post rfl rfl (.b text') rfl s' hacc'
  obtain ⟨v, w, -, hw, rfl⟩ := hset j hcount hover
  exact (hkept.runFrom hrun).unique ⟨_, hw, rfl⟩

/-- **With `-b` and a worker, a command line is not local.** The last `-b` changes nothing in the
worker before it, and the worker after it if there is none before. -/
theorem not_local_of_b (hacc : accepted net opts = some s) (hb : ∃ text, .b text ∈ opts)
    (hc : ∃ o ∈ opts, o.creates = true) : ¬ Local net opts := by
  obtain ⟨pre, text, post, rfl, hpost⟩ := exists_last_b hb
  cases hcount : creations pre with
  | zero =>
    refine not_local_of_b_before hacc hpost hcount ?_
    obtain ⟨o, ho, hcreates⟩ := hc
    have htotal : 0 < creations (pre ++ .b text :: post) :=
      List.countP_pos_iff.mpr ⟨o, ho, hcreates⟩
    simpa [creations, List.countP_append, List.countP_cons, Opt.creates,
      show List.countP Opt.creates pre = 0 from hcount] using htotal
  | succ j => exact not_local_of_b_behind hacc hpost hcount

end BufferSize

/-- **Which command lines are local**: an accepted one is if and only if it has no `-b` or opens no
worker. -/
theorem local_iff (net : Network) (argv : List CString) (opts : List Opt) (s : State)
    (hopts : argv.tail.mapM parse = .ok opts) (hacc : optionLoop net argv = .ok s) :
    Local net opts ↔ (∀ text, .b text ∉ opts) ∨ ∀ o ∈ opts, o.creates = false := by
  constructor
  · intro hlocal
    by_contra hcon
    push Not at hcon
    obtain ⟨hb, o, ho, hcreates⟩ := hcon
    obtain ⟨opts', hopts', hacc'⟩ := (optionLoop_ok_iff net argv s).mp hacc
    cases hopts.symm.trans hopts'
    exact not_local_of_b hacc' hb ⟨o, ho, by simpa using hcreates⟩ hlocal
  · rintro (hb | hc)
    · exact local_of_no_b hb
    · exact local_of_no_worker hc

/-- A network without a resolver. -/
def offline : Network := ⟨fun _ _ _ => none, fun _ _ => []⟩

/-- A sender with a message size: its command line is local. -/
theorem local_iff_message_size :
    Local offline [.t, .m "1400".toList] ↔
      (∀ text, .b text ∉ [Opt.t, .m "1400".toList]) ∨
        ∀ o ∈ [Opt.t, .m "1400".toList], o.creates = false :=
  local_iff offline ["options".toList, "-t".toList, "-m1400".toList] _ _ rfl rfl

/-- In `-t -b100 -t` the option stands behind the first sender. It is the second one that gets the
buffer size, and the command line is not local. -/
theorem not_local_second_sender :
    (optionLoop offline ["options".toList, "-t".toList, "-b100".toList, "-t".toList]).toOption.map
        (fun s => s.vSockets.map (·.sockbufsize)) = some [some 8192, some 100] ∧
      ¬ Local offline [.t, .b "100".toList, .t] :=
  ⟨by decide, not_local_of_b (show accepted offline _ = some _ from rfl)
    ⟨"100".toList, by simp⟩ ⟨.t, by simp, rfl⟩⟩

end LinuxTest.Ethernet.Options
