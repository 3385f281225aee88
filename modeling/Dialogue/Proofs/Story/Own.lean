import Dialogue.Proofs.Story.Reachable

namespace Dialogue

def World.affect {ε : Type} (w : World ε) (op : Operation ε) : World ε :=
  match op.change? with
  | some c => w.modifyMachine c.handle c.effect
  | none => w

variable {δ ν : Type} {view : δ → ν}

def World.withOwn (w : World (Story δ)) (x : δ) : World (Story δ) :=
  { w with host := { w.host with host := x } }

def Discreet (view : δ → ν) (handler : Severity → String → Story δ → Story δ) : Prop :=
  ∀ severity message s, ∃ x, view x = view s.host ∧
    handler severity message s = { s with host := x }

def World.Same (view : δ → ν) (w w' : World (Story δ)) : Prop :=
  ∃ x, view x = view w.host.host ∧ w' = w.withOwn x

namespace World

variable {w w' w'' : World (Story δ)}

theorem Same.refl (w : World (Story δ)) : Same view w w := ⟨w.host.host, rfl, rfl⟩

theorem Same.trans (h : Same view w w') (h' : Same view w' w'') : Same view w w'' := by
  obtain ⟨x, hx, rfl⟩ := h
  obtain ⟨y, hy, rfl⟩ := h'
  exact ⟨y, hy.trans hx, rfl⟩

theorem Same.symm (h : Same view w w') : Same view w' w := by
  obtain ⟨x, hx, rfl⟩ := h
  exact ⟨w.host.host, hx.symm, rfl⟩

theorem same_of_logs (hd : Discreet view w.channel.handler) (h : w.Logs w') : Same view w w' := by
  obtain ⟨messages, rfl⟩ := h
  induction messages generalizing w with
  | nil => exact .refl w
  | cons m messages ih =>
    obtain ⟨x, hx, heq⟩ := hd m.1 m.2 w.host
    have hfirst : Same view w { w with host := w.channel.handler m.1 m.2 w.host } :=
      ⟨x, hx, by rw [heq]; rfl⟩
    exact hfirst.trans (ih (w := { w with host := w.channel.handler m.1 m.2 w.host }) hd)

theorem Same.channel (h : Same view w w') : w'.channel = w.channel := by
  obtain ⟨x, -, rfl⟩ := h
  rfl

theorem Same.machine? (h : Same view w w') (hd : Handle) : w'.machine? hd = w.machine? hd := by
  obtain ⟨x, -, rfl⟩ := h
  rfl

theorem withOwn_modifyMachine (w : World (Story δ)) (x : δ) (hd : Handle)
    (f : HostMachine (Story δ) → HostMachine (Story δ)) :
    (w.withOwn x).modifyMachine hd f = (w.modifyMachine hd f).withOwn x := by
  unfold modifyMachine
  simp only [withOwn]
  split <;> rfl

theorem Same.affect (h : Same view w w') (op : Operation (Story δ)) :
    Same view (w.affect op) (w'.affect op) := by
  obtain ⟨x, hx, rfl⟩ := h
  unfold World.affect
  split
  · refine ⟨x, ?_, withOwn_modifyMachine w x _ _⟩
    rw [hx, modifyMachine]
    split <;> rfl
  · exact ⟨x, hx, rfl⟩

structure Settled (view : δ → ν) (w : World (Story δ)) : Prop where
  rest : w.AtRest
  discreet : Discreet view w.channel.handler

theorem affect_host (w : World (Story δ)) (op : Operation (Story δ)) :
    (w.affect op).host = w.host := by
  unfold World.affect
  split
  · exact host_modifyMachine w _ _
  · rfl

theorem affect_channel (w : World (Story δ)) (op : Operation (Story δ)) :
    (w.affect op).channel = w.channel := by
  unfold World.affect
  split
  · exact channel_modifyMachine w _ _
  · rfl

theorem Settled.exec (hw : Settled view w) {op : Operation (Story δ)} {c : Change (Story δ)}
    (hc : op.change? = some c) {fuel : Nat} {r : Reply} (hexec : exec fuel op w = some (r, w')) :
    r = c.reply (w.machine? c.handle) ∧ Same view (w.affect op) w' ∧ Settled view w' := by
  obtain ⟨rfl, hlogs⟩ := change_eq hw.rest hc hexec
  have haffect : w.modifyMachine c.handle c.effect = w.affect op := by
    rw [World.affect, hc]
  rw [haffect] at hlogs
  have hsame : Same view (w.affect op) w' := by
    apply same_of_logs _ hlogs
    rw [affect_channel]
    exact hw.discreet
  refine ⟨rfl, hsame, atRest_exec hw.rest hexec, ?_⟩
  rw [hsame.channel, affect_channel]
  exact hw.discreet

theorem Settled.perform_bind (hw : Settled view w) {op : Operation (Story δ)} {c : Change (Story δ)}
    (hc : op.change? = some c) {fuel : Nat} {β : Type} {f : Reply → Telling δ β}
    {r : Except StoryError β} (h : (Telling.perform fuel op >>= f).Yields w r w') :
    ∃ w₁, (f (c.reply (w.machine? c.handle))).Yields w₁ r w' ∧ Same view (w.affect op) w₁ ∧
      Settled view w₁ := by
  obtain ⟨a, w₁, hexec, hf⟩ := Telling.yields_perform_bind.mp h
  obtain ⟨rfl, hsame, hw₁⟩ := hw.exec hc hexec
  exact ⟨w₁, hf, hsame, hw₁⟩

theorem Settled.update (hw : Settled view w) (f : Story δ → Story δ) :
    Settled view { w with host := f w.host } :=
  ⟨hw.rest.congr rfl rfl, hw.discreet⟩

theorem Same.settled (h : Same view w w') (hw : Settled view w) : Settled view w' := by
  obtain ⟨x, -, rfl⟩ := h
  exact hw.update fun s => { s with host := x }

end World

namespace Story

variable {log : Severity → String → δ → δ} {w : World (Story δ)}

theorem Reachable.atRest (hw : Reachable log w) : w.AtRest := by
  induction hw with
  | create s => exact World.atRest_create _ _
  | operate _ hexec ih => exact World.atRest_exec ih hexec
  | update _ f ih => exact ih.congr rfl rfl

theorem Reachable.discreet (hw : Reachable log w) (hlog : ∀ s m x, view (log s m x) = view x) :
    Discreet view w.channel.handler := by
  induction hw with
  | create s => exact fun severity message s => ⟨_, hlog severity message s.host, rfl⟩
  | operate hw hexec ih =>
    exact World.handler_exec (fun _ _ s => ⟨s.host, rfl, rfl⟩) hw.atRest ih hexec
  | update _ f ih => exact ih

theorem Reachable.settled (hw : Reachable log w) (hlog : ∀ s m x, view (log s m x) = view x) :
    w.Settled view :=
  ⟨hw.atRest, hw.discreet hlog⟩

end Story

end Dialogue
