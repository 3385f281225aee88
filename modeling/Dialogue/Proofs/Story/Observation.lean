import Dialogue.Proofs.Container.RoundTrip
import Dialogue.Proofs.Host.Lending
import Dialogue.Proofs.Story.Telling

namespace Dialogue

variable {δ : Type}

theorem Telling.yields_value {w : World (Story δ)} {i j : Nat} {c : Conversation δ}
    {inst : Instance (Story δ)} {name : String} {v : Value}
    (hc : w.host.conversations[i]? = some c) (hphase : c.phase ≠ .destroyed)
    (hfind : w.find c.handle = .ok (j, inst)) (hbusy : inst.busy = false)
    (hvalue : inst.machine.value name = .ok v) (fuel : Nat) :
    ∃ w', (value (fuel + 1) i name).Yields w
      ((Wire.decode v.toBytes).map some |>.mapError .decode) w' := by
  obtain ⟨w₁, hlend, hbuffers⟩ : ∃ w₁ : World (Story δ),
      World.exec (fuel + 1) (.getValue c.handle name) w =
        some (.buffer (some w.buffers.length), w₁) ∧ w₁.buffers = w.buffers ++ [.ofValue v] := by
    refine ⟨{ w with buffers := w.buffers ++ [.ofValue v], outstanding := w.outstanding + 1 }, ?_, rfl⟩
    change some (Reply.buffer (w.lend c.handle name).1, (w.lend c.handle name).2) = _
    rw [World.lend_of_value hfind hbusy hvalue]
  have hbytes : World.exec (fuel + 1) (.bufferBytes w.buffers.length) w₁ =
      some (.bytes (some v.toBytes), w₁) := by
    change some (Reply.bytes (w₁.buffers[w.buffers.length]?.map (·.bytes)), w₁) = _
    rw [hbuffers, List.getElem?_concat_length]
    rfl
  have hrelease : World.exec (fuel + 1) (.release w.buffers.length) w₁ =
      some (.unit, w₁.release w.buffers.length) := rfl
  refine ⟨w₁.release w.buffers.length, ?_⟩
  unfold value
  rw [yields_alive_bind hc hphase, yields_perform_bind]
  refine ⟨_, w₁, hlend, yields_perform_bind.mpr ⟨_, w₁, hbytes, ?_⟩⟩
  refine yields_perform_bind.mpr ⟨_, _, hrelease, ?_⟩
  cases Wire.decode v.toBytes with
  | ok v =>
    simp only
    exact yields_pure.mpr ⟨rfl, rfl⟩
  | error e =>
    simp only
    exact yields_throw.mpr ⟨rfl, rfl⟩

theorem Story.proper_dispatch {h : Handle} {e : Event} (he : e.Proper) :
    (dispatch h e : Reaction (Story δ)).Proper fun _ => True := by
  have hupdate (f : Story δ → Story δ) : (Reaction.update f (.done .nil)).Proper fun _ => True :=
    ⟨fun _ _ => trivial, Value.proper_nil⟩
  intro s _
  simp only
  cases s.route? h with
  | none => exact ⟨trivial, fun _ => Value.proper_nil⟩
  | some i =>
    cases e with
    | line l => exact hupdate _
    | choices cs => exact hupdate _
    | changed name v =>
      have htell (told : List Handle) : (tell name v told
          (.update (fun s : Story δ => s.emit i (.changed name v)) (.done .nil))).Proper
            fun _ => True := by
        induction told with
        | nil => exact hupdate _
        | cons _ told ih => exact ⟨he, fun _ => ih⟩
      simp only [Story.changed]
      split
      · split
        · exact ⟨fun _ _ => trivial, htell _⟩
        · exact hupdate _
      · exact hupdate _

namespace Recorded

/-- Whatever host code does, as long as it makes proper values only: when it asks for the value of a
global it is lent a buffer, unless the machine runs, and the buffer reads as the value if and only
if the binary form has room for it. A conversation observes the value under the same condition. -/
theorem Reached.observes :
    (∀ {ε : Type} {H : ε → Prop} {s : Recorded ε}, s.Reached H → ∀ o ∈ s.trace, o.IsLent) ∧
    ∀ {δ : Type} {H : Story δ → Prop} {s : Recorded (Story δ)} {i j : Nat} {c : Conversation δ}
      {inst : Instance (Story δ)} {name : String} {v : Value}, s.Reached H →
      s.world.host.conversations[i]? = some c → c.phase ≠ .destroyed →
        s.world.find c.handle = .ok (j, inst) → inst.machine.value name = .ok v → ∀ fuel,
          ∃ r w', (Telling.value (fuel + 1) i name).Yields s.world r w' ∧
            (r = .ok (some v) ↔ v.Portable) := by
  refine ⟨fun hs o ho => hs.proper.trace o ho, ?_⟩
  intro δ H s i j c inst name v hs hc hphase hfind hvalue fuel
  obtain ⟨-, hinst⟩ := World.find_eq_ok hfind
  have hmem := List.mem_of_getElem? hinst
  have hbusy : inst.busy = false := congrArg Status.busy (hs.atRest.idle inst hmem)
  obtain ⟨w', hyields⟩ := Telling.yields_value hc hphase hfind hbusy hvalue fuel
  refine ⟨_, w', hyields, ?_⟩
  have hproper := (hs.proper.world.instances inst hmem).machine.of_value hvalue
  rw [← Wire.decode_toBytes_iff hproper]
  cases Wire.decode v.toBytes <;> simp [Except.map, Except.mapError]

def hollow : List Builder.Call := [.externVariable "x", .bough "main", .stop]

def stash (v : Value) (bytes : Bytes) : Reaction (Story Unit) :=
  .call (.create bytes Story.dispatch) fun
    | .created (.ok h) =>
      .update (fun s => { s with conversations := [.create h {} ["x"]], routes := [(h, 0)] })
        (.call (.setExtern h "x" v) fun _ => .call (.getValue h "x") fun _ => .done .nil)
    | _ => .done .nil

theorem proper_stash {v : Value} (hv : v.Proper) (bytes : Bytes) :
    (stash v bytes).Proper fun _ => True := by
  refine ⟨fun h e he => Story.proper_dispatch he, fun r => ?_⟩
  simp only
  split
  · exact ⟨fun _ _ => trivial, hv, fun _ => ⟨trivial, fun _ => Value.proper_nil⟩⟩
  · exact Value.proper_nil

def holdsNested (depth : Nat) (w : World (Story Unit)) (h : Handle) : Bool :=
  (w.find h).toOption.any fun (_, inst) => !inst.busy &&
    (inst.machine.value "x").toOption.any (·.isNested depth)

theorem of_holdsNested {depth : Nat} {w : World (Story Unit)} {h : Handle}
    (hholds : holdsNested depth w h = true) : ∃ i inst, w.find h = .ok (i, inst) ∧
      inst.busy = false ∧ inst.machine.value "x" = .ok (.nested depth) := by
  unfold holdsNested at hholds
  cases hfind : w.find h with
  | error e => simp [hfind, Except.toOption] at hholds
  | ok r =>
    obtain ⟨i, inst⟩ := r
    simp only [hfind, Except.toOption, Option.any_some, Bool.and_eq_true, Bool.not_eq_true'] at hholds
    obtain ⟨hbusy, hvalue⟩ := hholds
    refine ⟨i, inst, rfl, hbusy, ?_⟩
    cases hv : inst.machine.value "x" with
    | error e => simp [hv] at hvalue
    | ok v =>
      simp only [hv, Option.any_some] at hvalue
      rw [Value.eq_nested_of_isNested hvalue]

def stashes (depth : Nat) : Bool :=
  (Builder.run .offset hollow).build.toOption.any fun bytes =>
    (perform (exec 5) (stash (.nested depth) bytes) ⟨.create (fun _ _ s => s) (.create ()), []⟩).any
      fun (_, s) => s.trace.any (fun
        | .returned (.getValue h "x") _ before _ _ => holdsNested depth before h
        | _ => false) && (s.world.host.conversations[0]?).any fun c =>
          decide (c.phase ≠ .destroyed) && holdsNested depth s.world c.handle

theorem reached_of_stashes {depth : Nat} (h : stashes depth = true) :
    ∃ s : Recorded (Story Unit), s.Reached (fun _ => True) ∧
      (∃ h since before reply after i inst, .returned (.getValue h "x") since before reply after ∈ s.trace ∧
        before.find h = .ok (i, inst) ∧ inst.busy = false ∧
          inst.machine.value "x" = .ok (.nested depth)) ∧
      ∃ c i inst, s.world.host.conversations[0]? = some c ∧ c.phase ≠ .destroyed ∧
        s.world.find c.handle = .ok (i, inst) ∧ inst.machine.value "x" = .ok (.nested depth) := by
  obtain ⟨bytes, -, h⟩ := (Option.any_eq_true _ _).mp h
  obtain ⟨⟨x, s⟩, hrun, h⟩ := (Option.any_eq_true _ _).mp h
  simp only [Bool.and_eq_true] at h
  obtain ⟨hasked, hvalue⟩ := h
  refine ⟨s, ⟨_, _, _, _, x, trivial, fun _ _ _ _ => trivial,
    proper_stash (Value.proper_nested depth) bytes, hrun⟩, ?_, ?_⟩
  · obtain ⟨o, ho, hasked⟩ := List.any_eq_true.mp hasked
    split at hasked
    · obtain ⟨i, inst, hfind, hbusy, hvalue⟩ := of_holdsNested hasked
      exact ⟨_, _, _, _, _, i, inst, ho, hfind, hbusy, hvalue⟩
    · cases hasked
  · obtain ⟨c, hc, hvalue⟩ := (Option.any_eq_true _ _).mp hvalue
    rw [Bool.and_eq_true, decide_eq_true_eq] at hvalue
    obtain ⟨i, inst, hfind, -, hvalue'⟩ := of_holdsNested hvalue.2
    exact ⟨c, i, inst, hc, hvalue.1, hfind, hvalue'⟩

/-- Lists that are nested as deep as the binary form allows. -/
theorem observes_nested : ∃ (s : Recorded (Story Unit)) (h : Handle) (since : Nat)
    (before after : World (Story Unit)) (b : Buffer) (w' : World (Story Unit)),
    .returned (.getValue h "x") since before (.buffer (some before.buffers.length)) after ∈ s.trace ∧
      after.buffers[before.buffers.length]? = some b ∧ b.decode = .ok (.nested 64) ∧
        (Telling.value 1 0 "x").Yields s.world (.ok (some (.nested 64))) w' := by
  obtain ⟨s, hs, ⟨h, since, before, reply, after, i, inst, ho, hfind, hbusy, hvalue⟩, c, j, inst', hc,
    hphase, hfind', hvalue'⟩ := reached_of_stashes (show stashes 64 = true by decide +kernel)
  have hportable : (Value.nested 64).Portable := Value.portable_nested.mpr (by decide)
  have hlent := Reached.observes.1 hs _ ho i inst _ hfind hvalue
  simp only [hbusy, Bool.false_eq_true, if_false] at hlent
  obtain ⟨rfl, b, hb, hdecode⟩ := hlent
  obtain ⟨r, w', hyields, hr⟩ := Reached.observes.2 hs hc hphase hfind' hvalue' 0
  rw [hr.mpr hportable] at hyields
  exact ⟨s, h, since, before, after, b, w', ho, hb, hdecode.mpr hportable, hyields⟩

/-- One list more, and the host cannot read what it has set itself. -/
theorem not_observes_nested : ∃ (s : Recorded (Story Unit)) (h : Handle) (since : Nat)
    (before after : World (Story Unit)) (i : Nat) (inst : Instance (Story Unit)) (b : Buffer),
    s.Reached (fun _ => True) ∧
      .returned (.getValue h "x") since before (.buffer (some before.buffers.length)) after ∈ s.trace ∧
        before.find h = .ok (i, inst) ∧ inst.machine.value "x" = .ok (.nested 65) ∧
          after.buffers[before.buffers.length]? = some b ∧ b.decode ≠ .ok (.nested 65) := by
  obtain ⟨s, hs, ⟨h, since, before, reply, after, i, inst, ho, hfind, hbusy, hvalue⟩, -⟩ :=
    reached_of_stashes (show stashes 65 = true by decide +kernel)
  have hlent := hs.proper.trace _ ho i inst _ hfind hvalue
  simp only [hbusy, Bool.false_eq_true, if_false] at hlent
  obtain ⟨rfl, b, hb, hdecode⟩ := hlent
  refine ⟨s, h, since, before, after, i, inst, b, hs, ho, hfind, hvalue, hb, ?_⟩
  rw [Ne, hdecode, Value.portable_nested]
  decide

end Recorded

end Dialogue
