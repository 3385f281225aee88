import Dialogue.Proofs.Machine.Functionless
import Dialogue.Proofs.Story.Replay

namespace Dialogue

variable {δ δ' ν : Type} {view : δ → ν}

def Slice.choices? : Slice → Option (List Choice)
  | .choices cs => some cs
  | _ => none

namespace Conversation

def asked (c : Conversation δ) : Option (List Choice) := c.pending.bind Slice.choices?

/-- The records show the same conversation, but for its events and for what ties it to its host. -/
structure Mirrors (c : Conversation δ) (d : Conversation δ') : Prop where
  handle : d.handle = c.handle
  config : d.config = c.config
  phase : d.phase = c.phase
  pending : d.pending = c.pending

def hear (c : Conversation δ) : Event → Conversation δ
  | .line l => { c with pending := some (.line ⟨l.speaker, l⟩) }.emit (.line ⟨l.speaker, l⟩)
  | .choices cs => { c with pending := some (.choices cs) }.emit (.choices cs)
  | .changed name v => c.emit (.changed name v)

theorem asked_hear (c : Conversation δ) (e : Event) : (c.hear e).asked = e.asked c.asked := by
  cases e <;> rfl

end Conversation

namespace Story

structure Solo (s : Story δ) (i : Nat) (c : Conversation δ) : Prop where
  conversation : s.conversations[i]? = some c
  route : s.route? c.handle = some i
  speakers : s.speakers = .empty
  speaking : c.speaker = none
  store : s.store = none

variable {s t : Story δ} {s' t' : Story δ'} {i : Nat} {c : Conversation δ} {d : Conversation δ'}

theorem Solo.quiet (hs : s.Solo i c) : s.Quiet view c := by
  refine ⟨fun id speaker h => ?_, fun speaker h => ?_⟩
  · rw [hs.speakers] at h
    cases h
  · rw [hs.speaking] at h
    cases h

theorem Solo.modify (hs : s.Solo i c) {g : Conversation δ → Conversation δ}
    (hhandle : (g c).handle = c.handle) (hspeaker : (g c).speaker = c.speaker) :
    (s.modify i g).Solo i (g c) := by
  refine ⟨by simp [Story.modify, hs.conversation], ?_, hs.speakers, hspeaker.trans hs.speaking,
    hs.store⟩
  rw [hhandle]
  exact hs.route

theorem Solo.stopSpeaker (hs : s.Solo i c) : s.stopSpeaker i = s := by
  rw [Story.stopSpeaker, hs.conversation]
  simp only [Option.bind_some, hs.speaking]

theorem Solo.turns (hs : s.Solo i c) (h : Turns view i c c s t) : t.Solo i c := by
  refine ⟨h.conversation, ?_, h.speakers.trans hs.speakers, hs.speaking, h.store.trans hs.store⟩
  rw [Story.route?, h.routes]
  exact hs.route

theorem Solo.hear_eq (hs : s.Solo i c) (e : Event) :
    ∃ g : Conversation δ → Conversation δ, s.hear i e = s.modify i g ∧ g c = c.hear e := by
  cases e with
  | line l =>
    let spoken : SpokenLine := ⟨l.speaker, l⟩
    refine ⟨fun c => { c with speaker := none, pending := some (.line spoken) }.emit (.line spoken),
      ?_, ?_⟩
    · have hspeaker : s.speakers.get? l.speaker = none := by
        rw [hs.speakers]
        rfl
      simp only [Story.hear, Story.speak, hs.stopSpeaker, Speakers.displayName, hspeaker]
      rfl
    · rw [Conversation.hear, ← hs.speaking]
  | choices cs => exact ⟨fun c => c.hear (.choices cs), rfl, rfl⟩
  | changed name v => exact ⟨fun c => c.hear (.changed name v), rfl, rfl⟩

theorem Solo.hear (hs : s.Solo i c) (e : Event) :
    (s.hear i e).Solo i (c.hear e) ∧ (s.hear i e).state = s.state := by
  obtain ⟨g, hg, hc⟩ := hs.hear_eq e
  rw [hg, ← hc]
  refine ⟨hs.modify ?_ ?_, rfl⟩ <;> rw [hc] <;> cases e <;> rfl

/-- Two stories whose conversations are alike. The second has no change of a variable to tell. -/
structure Alike (i : Nat) (s : Story δ) (s' : Story δ') (c : Conversation δ)
    (d : Conversation δ') : Prop where
  first : s.Solo i c
  second : s'.Solo i d
  mirrors : c.Mirrors d
  state : s'.state = s.state
  unwatched : ∀ name v, StoryEvent.changed name v ∉ d.events

theorem Alike.modify (ha : Alike i s s' c d) {g : Conversation δ → Conversation δ}
    {g' : Conversation δ' → Conversation δ'}
    (hg : (g c).handle = c.handle ∧ (g c).speaker = c.speaker)
    (hg' : (g' d).handle = d.handle ∧ (g' d).speaker = d.speaker)
    (hmirrors : (g c).Mirrors (g' d))
    (hevents : ∀ name v, StoryEvent.changed name v ∈ (g' d).events →
      StoryEvent.changed name v ∈ d.events) :
    Alike i (s.modify i g) (s'.modify i g') (g c) (g' d) :=
  ⟨ha.first.modify hg.1 hg.2, ha.second.modify hg'.1 hg'.2, hmirrors, ha.state,
    fun name v h => ha.unwatched name v (hevents name v h)⟩

theorem Alike.turns {δ' : Type} {s' t' : Story δ'} {d : Conversation δ'} (ha : Alike i s s' c d)
    (h : Turns view i c c s t) (h' : Turns (fun _ => ()) i d d s' t') : Alike i t t' c d :=
  ⟨ha.first.turns h, ha.second.turns h', ha.mirrors, by rw [h.state, h'.state, ha.state],
    ha.unwatched⟩

theorem Alike.own (ha : Alike i s s' c d) (y : δ) (z : δ') :
    Alike i { s with host := y } { s' with host := z } c d :=
  ⟨⟨ha.first.conversation, ha.first.route, ha.first.speakers, ha.first.speaking, ha.first.store⟩,
    ⟨ha.second.conversation, ha.second.route, ha.second.speakers, ha.second.speaking,
      ha.second.store⟩, ha.mirrors, ha.state, ha.unwatched⟩

theorem Alike.amend (ha : Alike i s s' c d) (saved : Snapshot) :
    Alike i { s with state := s.state.amend saved } { s' with state := s'.state.amend saved } c d :=
  ⟨⟨ha.first.conversation, ha.first.route, ha.first.speakers, ha.first.speaking, ha.first.store⟩,
    ⟨ha.second.conversation, ha.second.route, ha.second.speakers, ha.second.speaking,
      ha.second.store⟩, ha.mirrors, congrArg (·.amend saved) ha.state, ha.unwatched⟩

theorem Alike.hear (ha : Alike i s s' c d) {e : Event} (he : e.isChange = false) :
    Alike i (s.hear i e) (s'.hear i e) (c.hear e) (d.hear e) := by
  obtain ⟨hfirst, hstate⟩ := ha.first.hear e
  obtain ⟨hsecond, hstate'⟩ := ha.second.hear e
  obtain ⟨hhandle, hconfig, hphase, hpending⟩ := ha.mirrors
  refine ⟨hfirst, hsecond, ?_, by rw [hstate, hstate', ha.state], fun name v h => ?_⟩
  · cases e with
    | line | choices => exact ⟨hhandle, hconfig, hphase, rfl⟩
    | changed => exact ⟨hhandle, hconfig, hphase, hpending⟩
  · cases e with
    | line l | choices cs =>
      refine ha.unwatched name v ?_
      simpa [Conversation.hear, Conversation.emit] using h
    | changed name v => cases he

theorem Alike.foldl_hear (ha : Alike i s s' c d) {es : List Event}
    (hes : ∀ e ∈ es, e.isChange = false) :
    Alike i (es.foldl (·.hear i ·) s) (es.foldl (·.hear i ·) s') (es.foldl (·.hear ·) c)
      (es.foldl (·.hear ·) d) := by
  induction es generalizing s s' c d with
  | nil => exact ha
  | cons e es ih =>
    obtain ⟨he, hes⟩ := List.forall_mem_cons.mp hes
    exact ih (ha.hear he) hes

theorem asked_foldl_hear (c : Conversation δ) (es : List Event) :
    (es.foldl (·.hear ·) c).asked = es.foldl Event.asked c.asked := by
  induction es generalizing c with
  | nil => rfl
  | cons e es ih => rw [List.foldl_cons, List.foldl_cons, ih, c.asked_hear]

theorem post_foldl_hear (c : Conversation δ) (es : List Event) :
    (es.foldl (·.hear ·) c).post = c.post := by
  induction es generalizing c with
  | nil => rfl
  | cons e es ih =>
    rw [List.foldl_cons, ih]
    cases e <;> rfl

end Story

def RunEnd.isPause : RunEnd → Bool
  | paused => true
  | _ => false

namespace Machine

variable {φ : Type}

def concluded (m : Machine φ) : RunEnd → Machine φ
  | .panic _ => m.halt
  | _ => m

def delivered (m : Machine φ) : Machine φ := { m with events := [], diagnostics := [] }

def rounds (m : Machine φ) : Nat := if m.events.isEmpty then 1 else 2

end Machine

namespace World

open Story (Alike Turns)

variable {w w' : World (Story δ)} {v : World (Story δ')} {i k : Nat} {c : Conversation δ}
  {d : Conversation δ'} {m m₁ : Machine Empty} {x : ν}

theorem flush_rounds
    {exec : Operation (Story δ) → World (Story δ) → Option (Reply × World (Story δ))}
    {inst : Instance (Story δ)} {h : Handle} (hinst : w.instances[k]? = some inst)
    (hbusy : inst.busy = false) (hdispatching : inst.dispatching = false)
    (hcallbacks : inst.callbacks = Story.dispatch) (hmachine : inst.machine = m.hosted)
    (hd : Discreet view w.channel.handler) (hroute : w.host.route? h = some i)
    (hs : w.host.Solo i c)
    (hflush : World.flush (Reaction.perform exec) h k 2 w = some w') (n : Nat) :
    World.flush (Reaction.perform exec) h k n w = if n < m.rounds then none else some w' := by
  have hevents : (w.collect k inst).1 = m.events := by
    rw [collect_events, hdispatching, hmachine]
    rfl
  rcases n with _ | _ | n
  · exact (if_pos (by unfold Machine.rounds; split <;> decide)).symm
  · rw [flush_succ hinst hbusy, hevents] at hflush ⊢
    unfold Machine.rounds
    cases hempty : m.events.isEmpty with
    | true =>
      rw [hempty] at hflush
      exact hflush
    | false =>
      obtain ⟨hk, -⟩ := List.getElem?_eq_some_iff.mp hinst
      obtain ⟨x, -, hcollect⟩ : Same view (w.setInstance k inst.drained) (w.collect k inst).2 := by
        rw [collect_snd]
        exact same_of_logs hd (logs_reports _ _)
      let w₁ := (w.setInstance k inst.drained).withOwn x
      have hinst' : w₁.instances[k]? = some inst.drained := by
        simp [w₁, withOwn, setInstance, hk]
      have hquiet : Story.Quiet view w₁.host c := ⟨hs.quiet.speakers, hs.quiet.speaking⟩
      simp only [Bool.false_eq_true, if_false]
      rw [hcollect, hcallbacks, Conduct.dispatch_eq hinst',
        deliver_dispatch (w := w₁.setInstance k _) exec hroute hs.store hs.conversation hquiet]
      rfl
  · rw [if_neg (by unfold Machine.rounds; split <;> omega)]
    induction n with
    | zero => exact hflush
    | succ n ih => exact flush_mono ih

theorem conclude_hosted (m : Machine Empty) (ended : RunEnd) :
    (conclude (m.hosted : HostMachine (Story δ)) ended).2 = (m.concluded ended).hosted := by
  cases ended <;> rfl

theorem answerFlag_conclude (w : World (Story δ)) (m : HostMachine (Story δ)) (ended : RunEnd) :
    (w.answerFlag (conclude m ended).1).1 = .flag ended.isPause := by
  cases ended <;> rfl

theorem answerFlag_same {w : World (Story δ)} {m : HostMachine (Story δ)} {ended : RunEnd}
    (hd : Discreet view (w.answerFlag (conclude m ended).1).2.channel.handler) :
    ∃ y, view y = view w.host.host ∧
      w.answerFlag (conclude m ended).1 = (.flag ended.isPause, w.withOwn y) := by
  have hlogs : Logs w (w.answerFlag (conclude m ended).1).2 := logs_answer w _
  have hchannel : (w.answerFlag (conclude m ended).1).2.channel = w.channel := by
    obtain ⟨messages, h⟩ := hlogs
    rw [h]
  obtain ⟨y, hy, hsame⟩ := same_of_logs (hchannel ▸ hd) hlogs
  exact ⟨y, hy, Prod.ext (answerFlag_conclude w m ended) hsame⟩

theorem Hosts.run_alone (hw : Hosts view w i c m.hosted) (hs : w.host.Solo i c) {n : Nat}
    {ended : RunEnd} (hrun : m.runAlone n = some (ended, m₁)) :
    (n < m₁.rounds ∧ exec (n + 1) (.run c.handle) w = none) ∨
      m₁.rounds ≤ n ∧ ∃ w' c' y y', exec (n + 1) (.run c.handle) w = some (.flag ended.isPause, w') ∧
        Hosts view w' i c' (m₁.concluded ended).delivered.hosted ∧
        w'.host = { m₁.events.foldl (·.hear i ·) { w.host with host := y } with host := y' } ∧
        view y' = view w.host.host := by
  obtain ⟨k, inst, hfind, hmachine, hcallbacks⟩ := id hw.found
  obtain ⟨hget, hinst⟩ := find_eq_ok hfind
  obtain ⟨hk, -⟩ := List.getElem?_eq_some_iff.mp hinst
  have hidle := hw.settled.rest.idle inst (List.mem_of_getElem? hinst)
  have hbusy : inst.busy = false := congrArg Status.busy hidle
  have hevents : (m₁.concluded ended).events = m₁.events := by cases ended <;> rfl
  have hrounds : (m₁.concluded ended).rounds = m₁.rounds := by
    rw [Machine.rounds, hevents, Machine.rounds]
  have hran (s : World (Story δ)) :
      inst.machine.run (apply n) n s = some (ended, m₁.hosted, s) := by
    rw [hmachine, Machine.run_hosted, hrun]
    rfl
  have hexec := run_eq_of_find hfind hidle n
  simp only [hran, conclude_hosted] at hexec
  obtain ⟨w₁, c', hflush, hfind', ⟨y, hhost⟩, hturns, hquiet, -⟩ :=
    hw.heard hfind hcallbacks (exec n) (m₁.concluded ended).hosted 0
  rw [setInstance_ran hinst hbusy] at hexec hflush
  have hflush' := flush_rounds (w := w.setInstance k _)
    (show _ = some { inst with machine := (m₁.concluded ended).hosted } by simp [setInstance, hk])
    hbusy (congrArg Status.dispatching hidle) hcallbacks rfl hw.settled.discreet hw.route hs hflush n
  rw [hflush', hrounds] at hexec
  -- The delivery needs as much fuel as it has rounds, and with more it comes to the same.
  by_cases hn : n < m₁.rounds
  · rw [if_pos hn] at hexec
    exact .inl ⟨hn, hexec⟩
  · rw [if_neg hn, Option.map_some] at hexec
    refine .inr ⟨Nat.le_of_not_lt hn, ?_⟩
    have hd : Discreet view (w₁.answerFlag (conclude m₁.hosted ended).1).2.channel.handler :=
      handler_exec (fun _ _ s => ⟨s.host, rfl, rfl⟩) hw.settled.rest hw.settled.discreet hexec
    obtain ⟨y', hy', hanswer⟩ := answerFlag_same hd
    rw [hanswer] at hexec
    have hown : Turns view i c' c' w₁.host (w₁.withOwn y').host :=
      ⟨hturns.conversation, rfl, rfl, rfl, rfl, rfl, hy'⟩
    refine ⟨_, c', y, y', hexec, ?_, ?_, hy'.trans hturns.view⟩
    · exact hw.ran hcallbacks hexec hfind' (hturns.trans hown) ⟨hquiet.speakers, hquiet.speaking⟩
    · rw [← hevents, ← Machine.map_events, ← hhost]
      rfl

theorem Hosts.run_exhausted (hw : Hosts view w i c m.hosted) {n : Nat}
    (hrun : m.runAlone n = none) : exec (n + 1) (.run c.handle) w = none := by
  obtain ⟨k, inst, hfind, hmachine, -⟩ := id hw.found
  have hidle := hw.settled.rest.idle inst (List.mem_of_getElem? (find_eq_ok hfind).2)
  have hran (s : World (Story δ)) : inst.machine.run (apply n) n s = none := by
    rw [hmachine, Machine.run_hosted, hrun]
    rfl
  rw [run_eq_of_find hfind hidle n]
  simp only [hran]

/-- The conversations are alike and have the same machine. The first host's state shows `x`. -/
structure Twins (view : δ → ν) (i : Nat) (x : ν) (w : World (Story δ)) (v : World (Story δ'))
    (c : Conversation δ) (d : Conversation δ') (m : Machine Empty) : Prop where
  first : Hosts view w i c m.hosted
  second : Hosts (fun _ => ()) v i d m.hosted
  alike : Alike i w.host v.host c d
  view : view w.host.host = x
  alive : c.phase ≠ .destroyed
  unwatched : m.Unwatched
  covered : m.Covered c.asked

variable {v' : World (Story δ')} {c' : Conversation δ} {d' : Conversation δ'} {m' : Machine Empty}

theorem Twins.idle (ht : Twins view i x w v c d m) : m.events = [] := ht.first.idle.1

theorem Twins.restage (ht : Twins view i x w v c d m) {s : Story δ} {s' : Story δ'}
    (ha : Alike i s s' c' d') (hhandle : c'.handle = c.handle) (halive : c'.phase ≠ .destroyed)
    (hasked : ∀ cs, c'.asked = some cs → c.asked = some cs) {y : ν} (hy : view s.host = y) :
    Twins view i y { w with host := s } { v with host := s' } c' d' m where
  first := ⟨ht.first.settled.update fun _ => s, ha.first.conversation, hhandle ▸ ht.first.found,
    ha.first.route, ha.first.store, ha.first.quiet⟩
  second := ⟨ht.second.settled.update fun _ => s', ha.second.conversation,
    (ha.mirrors.handle.trans (hhandle.trans ht.alike.mirrors.handle.symm)) ▸ ht.second.found,
    ha.second.route, ha.second.store, ha.second.quiet⟩
  alike := ha
  view := hy
  alive := halive
  unwatched := ht.unwatched
  covered := fun cs hcs => ht.covered cs (by rw [ht.idle] at hcs ⊢; exact hasked cs hcs)

theorem Twins.proceed (ht : Twins view i x w v c d m) (hw : Hosts view w' i c m'.hosted)
    (hv : Hosts (fun _ => ()) v' i d m'.hosted) (hturns : Turns view i c c w.host w'.host)
    (hturns' : Turns (fun _ => ()) i d d v.host v'.host) (houtlines : m'.outlines = m.outlines)
    (hpending : m'.pending.length ≤ m.pending.length) : Twins view i x w' v' c d m' where
  first := hw
  second := hv
  alike := ht.alike.turns hturns hturns'
  view := hturns.view.trans ht.view
  alive := ht.alive
  unwatched := by
    rw [Machine.Unwatched, houtlines]
    exact ht.unwatched
  covered := by
    intro cs hcs
    have hidle : m'.events = [] := hw.idle.1
    rw [hidle] at hcs
    exact Nat.le_trans hpending (ht.covered cs (by rw [ht.idle]; exact hcs))

theorem Twins.change (ht : Twins view i x w v c d m) {op : Operation (Story δ)}
    {op' : Operation (Story δ')} {ch : Change (Story δ)} {ch' : Change (Story δ')}
    (hc : op.change? = some ch) (hc' : op'.change? = some ch') (hh : ch.handle = c.handle)
    (hh' : ch'.handle = c.handle) (hfallback : ch'.fallback = ch.fallback)
    {r : Except MachineError (Reply × Machine Empty)}
    (hr : ch.apply m.hosted = r.map fun r => (r.1, r.2.hosted))
    (hr' : ch'.apply m.hosted = r.map fun r => (r.1, r.2.hosted))
    (hkeeps : ∀ a m', r = .ok (a, m') → m'.outlines = m.outlines ∧
      m'.pending.length ≤ m.pending.length) (fuel : Nat) :
    ∃ a w' v' m', exec (fuel + 2) op w = some (a, w') ∧ exec (fuel + 2) op' v = some (a, v') ∧
      Twins view i x w' v' c d m' := by
  obtain ⟨w', hexec, hw', hturns⟩ := ht.first.change op hc hh fuel
  obtain ⟨v', hexec', hv', hturns'⟩ :=
    ht.second.change op' hc' (hh'.trans ht.alike.mirrors.handle.symm) fuel
  simp only [Change.reply, Change.effect, hr, hr', hfallback] at hexec hexec' hw' hv'
  cases r with
  | ok r =>
    obtain ⟨houtlines, hpending⟩ := hkeeps r.1 r.2 rfl
    exact ⟨r.1, w', v', { r.2 with diagnostics := [] }, hexec, hexec',
      ht.proceed hw' hv' hturns hturns' houtlines hpending⟩
  | error e => exact ⟨ch.fallback, w', v', m, hexec, hexec', ht.proceed hw' hv' hturns hturns' rfl
      Nat.le.refl⟩

theorem Hosts.start_error {m : HostMachine (Story δ)} {bough : String} {e : MachineError}
    (hw : Hosts view w i c m) (hstart : m.start bough = .error e) (fuel : Nat) :
    ∃ w', exec (fuel + 2) (.start c.handle bough) w = some (.flag false, w') ∧
      Hosts view w' i c m ∧ Turns view i c c w.host w'.host := by
  obtain ⟨k, inst, hfind, rfl, -⟩ := id hw.found
  have hidle := hw.settled.rest.idle inst (List.mem_of_getElem? (find_eq_ok hfind).2)
  have hexec := start_eq_of_find hfind hidle bough fuel
  simp only [hstart] at hexec
  obtain ⟨y, hy, hsame⟩ :=
    same_of_logs hw.settled.discreet (logs_report w e.severity e.message)
  rw [hsame] at hexec
  exact ⟨_, hexec, hw.own y, hw.conversation, rfl, rfl, rfl, rfl, rfl, hy⟩

theorem Twins.start (ht : Twins view i x w v c d m) (bough : String) (fuel : Nat) :
    ∃ b w' v' m', exec (fuel + 2) (.start c.handle bough) w = some (.flag b, w') ∧
      exec (fuel + 2) (.start c.handle bough) v = some (.flag b, v') ∧
        Twins view i x w' v' c d m' := by
  have hmap {ε : Type} : (m.hosted : HostMachine ε).start bough = (m.start bough).map .hosted :=
    Machine.start_map ..
  have hhandle := ht.alike.mirrors.handle
  cases hstart : m.start bough with
  | ok m' =>
    have hstarts {ε : Type} : (m.hosted : HostMachine ε).start bough = .ok m'.hosted := by
      rw [hmap, hstart, Except.map]
    obtain ⟨w', hexec, hw', hhost⟩ := ht.first.start hstarts fuel
    obtain ⟨v', hexec', hv', hhost'⟩ := ht.second.start hstarts fuel
    rw [hhandle] at hexec'
    obtain ⟨b, -, rfl⟩ := Machine.start_eq_ok hstart
    refine ⟨true, w', v', _, hexec, hexec', ht.proceed hw' hv' ?_ ?_ rfl (Nat.zero_le _)⟩
    · rw [hhost]
      exact .refl ht.first.conversation
    · rw [hhost']
      exact .refl ht.second.conversation
  | error e =>
    have hfails {ε : Type} : (m.hosted : HostMachine ε).start bough = .error e := by
      rw [hmap, hstart, Except.map]
    obtain ⟨w', hexec, hw', hturns⟩ := ht.first.start_error hfails fuel
    obtain ⟨v', hexec', hv', hturns'⟩ := ht.second.start_error hfails fuel
    rw [hhandle] at hexec'
    exact ⟨false, w', v', m, hexec, hexec', ht.proceed hw' hv' hturns hturns' rfl Nat.le.refl⟩

theorem Twins.run (ht : Twins view i x w v c d m) (n : Nat) :
    (exec (n + 1) (.run c.handle) w = none ∧ exec (n + 1) (.run c.handle) v = none) ∨
      ∃ b w' v' c' d' m', exec (n + 1) (.run c.handle) w = some (.flag b, w') ∧
        exec (n + 1) (.run c.handle) v = some (.flag b, v') ∧ c'.handle = c.handle ∧
          Twins view i x w' v' c' d' m' := by
  have hhandle := ht.alike.mirrors.handle
  cases hrun : m.runAlone n with
  | none =>
    have hnone := ht.second.run_exhausted hrun
    rw [hhandle] at hnone
    exact .inl ⟨ht.first.run_exhausted hrun, hnone⟩
  | some r =>
    obtain ⟨ended, m₁⟩ := r
    obtain ⟨hcovered, hunwatched, hquiet⟩ :=
      Machine.runAlone_spec hrun ht.covered ht.unwatched ht.idle
    -- What was sent is the same, so the deliveries have the same number of rounds.
    rcases ht.first.run_alone ht.alike.first hrun with ⟨hn, hexec⟩ | ⟨hn, hran⟩
    · rcases ht.second.run_alone ht.alike.second hrun with ⟨-, hexec'⟩ | ⟨hn', -⟩
      · rw [hhandle] at hexec'
        exact .inl ⟨hexec, hexec'⟩
      · omega
    · rcases ht.second.run_alone ht.alike.second hrun with ⟨hn', -⟩ | ⟨-, hran'⟩
      · omega
      obtain ⟨w', c', y, y', hexec, hw', hhost, hview⟩ := hran
      obtain ⟨v', d', z, z', hexec', hv', hhost', -⟩ := hran'
      rw [hhandle] at hexec'
      have ha : Alike i w'.host v'.host (m₁.events.foldl (·.hear ·) c)
          (m₁.events.foldl (·.hear ·) d) := by
        rw [hhost, hhost']
        exact ((ht.alike.own y z).foldl_hear hquiet).own y' z'
      cases hw'.conversation.symm.trans ha.first.conversation
      cases hv'.conversation.symm.trans ha.second.conversation
      have hpost := Story.post_foldl_hear c m₁.events
      have hphase : (m₁.events.foldl (·.hear ·) c).phase = c.phase := congrArg (·.2.2.2) hpost
      refine .inr ⟨_, w', v', _, _, _, hexec, hexec', congrArg (·.1) hpost, hw', hv', ha, ?_, ?_, ?_,
        ?_⟩
      · rw [hhost]
        exact hview.trans ht.view
      · rw [hphase]
        exact ht.alive
      · cases ended <;> exact hunwatched
      · intro cs hcs
        rw [Story.asked_foldl_hear] at hcs
        have hlength := hcovered cs hcs
        cases ended with
        | panic message => exact Nat.zero_le _
        | paused | error e => exact hlength

end World

end Dialogue
