import Dialogue.Proofs.Story.Accord
import Dialogue.Proofs.Story.Speaking
import Mathlib.Logic.Relation

namespace Dialogue

variable {δ κ : Type}

namespace Story

variable {heard : δ → List (Signal κ)} {troupe : Speaker δ → Prop} {s s' s'' : Story δ} {i : Nat}

/-- No speaker is called or takes another's place, and nobody from outside the troupe is registered.
Routes and conversations stay, but for what these ask, and they tell no lines. -/
structure Refrains (heard : δ → List (Signal κ)) (troupe : Speaker δ → Prop) (s s' : Story δ) :
    Prop where
  routes : s'.routes = s.routes
  posts : s'.conversations.map Conversation.post = s.conversations.map Conversation.post
  speaking : s'.conversations.map (·.speaker) = s.conversations.map (·.speaker)
  said : s'.conversations.map Conversation.said = s.conversations.map Conversation.said
  calls : heard s'.host = heard s.host
  engages : s.Engages troupe → s'.Engages troupe

theorem Refrains.refl (s : Story δ) : Refrains heard troupe s s := ⟨rfl, rfl, rfl, rfl, rfl, id⟩

theorem Refrains.trans (h : Refrains heard troupe s s') (h' : Refrains heard troupe s' s'') :
    Refrains heard troupe s s'' :=
  ⟨h'.routes.trans h.routes, h'.posts.trans h.posts, h'.speaking.trans h.speaking,
    h'.said.trans h.said, h'.calls.trans h.calls, fun hs => h'.engages (h.engages hs)⟩

theorem Refrains.speaking? (h : Refrains heard troupe s s') (i : Nat) :
    s'.speaking? i = s.speaking? i := by
  have hspeaker := congrArg (fun l => (l[i]?).bind id) h.speaking
  simpa [Story.speaking?, Option.bind_map, Function.comp_def] using hspeaker

theorem Refrains.told (h : Refrains heard troupe s s') (i : Nat) : s'.told i = s.told i := by
  have hsaid := congrArg (fun l => (l[i]?).getD []) h.said
  simpa [Story.told] using hsaid

theorem Refrains.aloof (h : Refrains heard troupe s s') : Aloof heard troupe s s' where
  calls := h.calls
  speaking := h.speaking?
  engages := h.engages
  told i := h.told i ▸ List.suffix_refl _
  ended i _ _ hp := phase?_of_posts h.posts i ▸ hp
  destroyed i hi := (phase?_of_posts h.posts i).trans hi

theorem refrains_modify (s : Story δ) (i : Nat) {f : Conversation δ → Conversation δ}
    (hf : ∀ c, (f c).post = c.post ∧ (f c).speaker = c.speaker ∧ (f c).said = c.said) :
    Refrains heard troupe s (s.modify i f) :=
  ⟨rfl, map_modify s i fun c => (hf c).1, map_modify s i fun c => (hf c).2.1,
    map_modify s i fun c => (hf c).2.2, rfl, id⟩

theorem said_emit (c : Conversation δ) {e : StoryEvent} (he : e.line? = none) :
    (c.emit e).said = c.said := by
  simp [Conversation.said, Conversation.emit, he]

theorem refrains_emit (s : Story δ) (i : Nat) {e : StoryEvent} (he : e.line? = none) :
    Refrains heard troupe s (s.emit i e) :=
  refrains_modify s i fun c => ⟨rfl, rfl, said_emit c he⟩

theorem Rebinds.refrains (h : Rebinds s s') : Refrains heard troupe s s' := by
  have hmap {β : Type} (g : Conversation δ → β) (hg : ∀ c, g { c with bindings := [] } = g c) :
      s'.conversations.map g = s.conversations.map g := by
    simpa [Function.comp_def, hg] using congrArg (List.map g) h.conversations
  refine ⟨h.routes, hmap _ fun _ => rfl, hmap _ fun _ => rfl, hmap _ fun _ => rfl,
    congrArg heard h.host, fun hs => ?_⟩
  rw [Engages, h.speakers]
  exact hs

def take (s : Story δ) (i n : Nat) : Story δ :=
  s.modify i fun c => { c with events := c.events.drop n }

def Carries (s : Story δ) (i : Nat) (h : Handle) : Prop :=
  ∃ c, s.conversations[i]? = some c ∧ c.handle = h ∧ c.phase ≠ .destroyed

def Billed (s : Story δ) : Prop := ∀ h i, s.route? h = some i → s.Carries i h

theorem Carries.congr {h : Handle} (hs : s.Carries i h)
    (hposts : s'.conversations.map Conversation.post = s.conversations.map Conversation.post) :
    s'.Carries i h := by
  obtain ⟨c, hc, rfl, hphase⟩ := hs
  have hpost := congrArg (·[i]?) hposts
  simp only [List.getElem?_map, hc, Option.map_some, Option.map_eq_some_iff] at hpost
  obtain ⟨c', hc', heq⟩ := hpost
  refine ⟨c', hc', congrArg (·.1) heq, ?_⟩
  rwa [show c'.phase = c.phase from congrArg (·.2.2.2) heq]

theorem Carries.lives {h : Handle} (hs : s.Carries i h) : s.Lives i := by
  obtain ⟨c, hc, -, hphase⟩ := hs
  exact ⟨c.phase, by rw [phase?, hc, Option.map_some], hphase⟩

theorem Billed.congr (hs : s.Billed) (hroutes : s'.routes = s.routes)
    (hposts : s'.conversations.map Conversation.post = s.conversations.map Conversation.post) :
    s'.Billed := by
  intro h i hroute
  rw [route?, hroutes] at hroute
  exact (hs h i hroute).congr hposts

structure Silent (s : Story δ) (i : Nat) (p : Phase) : Prop where
  phase : s.phase? i = some p
  speaking : s.speaking? i = none

theorem Silent.refrains {p : Phase} (hs : s.Silent i p) (h : Refrains heard troupe s s') :
    s'.Silent i p :=
  ⟨(phase?_of_posts h.posts i).trans hs.phase, (h.speaking? i).trans hs.speaking⟩

theorem Billed.enroll (hs : s.Billed) {c : Conversation δ} (hphase : c.phase ≠ .destroyed) :
    (s.enroll c).Billed := by
  intro h i hroute
  rw [route?_enroll] at hroute
  split at hroute
  · rename_i heq
    cases hroute
    exact ⟨c, List.getElem?_concat_length, heq.symm, hphase⟩
  · obtain ⟨own, hown, hhandle, hlives⟩ := hs h i hroute
    have hi := (List.getElem?_eq_some_iff.mp hown).1
    exact ⟨own, (List.getElem?_append_left hi).trans hown, hhandle, hlives⟩

def recording (heard : δ → List (Signal κ)) (troupe : Speaker δ → Prop) : Discipline (Story δ) where
  performs _ := True
  changes := Refrains heard troupe
  trusts callbacks := callbacks = dispatch

structure Relates (heard : δ → List (Signal κ)) (troupe : Speaker δ → Prop) (s : Story δ)
    (es : List (Episode δ)) (s' : Story δ) : Prop where
  plot : Plot heard troupe s es s'
  told : ∀ i, s'.told i = s.told i ++ es.filterMap (Episode.line? i)

theorem Relates.nil (s : Story δ) : Relates heard troupe s [] s := ⟨.nil s, fun _ => by simp⟩

theorem Relates.append {es es' : List (Episode δ)} (h : Relates heard troupe s es s')
    (h' : Relates heard troupe s' es' s'') : Relates heard troupe s (es ++ es') s'' :=
  ⟨h.plot.append h'.plot, fun i => by
    rw [h'.told, h.told, List.filterMap_append, List.append_assoc]⟩

theorem Beat.Leads.relates {d : Beat} (h : d.Leads heard troupe s s')
    (hother : d = .other → ∀ i, s'.told i = s.told i) :
    Relates heard troupe s [⟨s, d, s'⟩] s' := by
  refine ⟨.single h, fun i => ?_⟩
  rw [h.told i fun heq => hother heq i, List.filterMap_cons, Episode.line?]
  cases d.line? s i <;> rfl

theorem Refrains.relates (h : Refrains heard troupe s s') :
    Relates heard troupe s [⟨s, .other, s'⟩] s' :=
  Beat.Leads.relates (d := .other) h.aloof fun _ => h.told

structure Recounts (heard : δ → List (Signal κ)) (troupe : Speaker δ → Prop) (s s' : Story δ) :
    Prop where
  routes : s'.routes = s.routes
  posts : s'.conversations.map Conversation.post = s.conversations.map Conversation.post
  plot : s.Staffed troupe → s.Billed → ∃ es, Relates heard troupe s es s'

theorem Refrains.recounts (h : Refrains heard troupe s s') : Recounts heard troupe s s' :=
  ⟨h.routes, h.posts, fun _ _ => ⟨_, h.relates⟩⟩

theorem Recounts.trans (h : Recounts heard troupe s s') (h' : Recounts heard troupe s' s'') :
    Recounts heard troupe s s'' := by
  refine ⟨h'.routes.trans h.routes, h'.posts.trans h.posts, fun hs hbilled => ?_⟩
  obtain ⟨es, hes⟩ := h.plot hs hbilled
  obtain ⟨es', hes'⟩ := h'.plot (hes.plot.staffed hs) (hbilled.congr h.routes h.posts)
  exact ⟨es ++ es', hes.append hes'⟩

theorem recounts_hear {h : Handle} (hroute : s.route? h = some i) (e : Event) :
    Recounts heard troupe s (s.hear i e) := by
  have hstirs := stirs_hear s i e
  refine ⟨hstirs.routes, hstirs.posts, fun _ hbilled => ?_⟩
  cases e with
  | line l =>
    have hleads : (Beat.line i l).Leads heard troupe s (s.speak i l) :=
      ⟨(hbilled h i hroute).lives, rfl⟩
    exact ⟨_, hleads.relates nofun⟩
  | choices cs =>
    have hoffer : Refrains heard troupe s (s.offer i cs) :=
      refrains_modify s i fun _ => ⟨rfl, rfl, said_emit _ rfl⟩
    exact ⟨_, hoffer.relates⟩
  | changed name v =>
    have hemit : Refrains heard troupe s (s.emit i (.changed name v)) :=
      refrains_emit s i rfl
    exact ⟨_, hemit.relates⟩

theorem bounds_recording : (recording heard troupe).Bounds (Recounts heard troupe) where
  refl s := (Refrains.refl s).recounts
  trans := .trans
  idle := .refl
  changes := Refrains.recounts
  trusts := by
    rintro c rfl h e s
    refine upholds_dispatch (fun _ _ _ => ⟨trivial, trivial⟩) (fun _ _ => ⟨trivial, trivial⟩)
      (Refrains.refl s).recounts ?_ ?_
    · exact fun name v store told _ => (s.rebinds_store _).refrains.recounts
    · intro j s' hroute hs'
      rw [route?, ← hs'.routes] at hroute
      exact hs'.trans (recounts_hear hroute e)

abbrev record (heard : δ → List (Signal κ)) (troupe : Speaker δ → Prop) : Conduct (Story δ) :=
  (recording heard troupe).conduct bounds_recording (L := fun _ => True) fun _ => trivial

end Story

namespace World

open Story (Aloof Beat Recounts Refrains Relates record recording)

variable {heard : δ → List (Signal κ)} {troupe : Speaker δ → Prop} {s₀ s : Story δ}
  {w w' : World (Story δ)} {i fuel : Nat} {h : Handle} {op : Operation (Story δ)} {r : Reply}

structure Rehearsing (heard : δ → List (Signal κ)) (troupe : Speaker δ → Prop) (s₀ : Story δ)
    (w : World (Story δ)) : Prop where
  orderly : (record heard troupe).Orderly none w
  rest : w.AtRest
  staffed : w.host.Staffed troupe
  billed : w.host.Billed
  plot : ∃ es, Relates heard troupe s₀ es w.host

theorem Rehearsing.leads {d : Beat} (hw : Rehearsing heard troupe s₀ w)
    (hd : d.Leads heard troupe w.host s) (hother : d = .other → ∀ j, s.told j = w.host.told j)
    (hbilled : s.Billed) : Rehearsing heard troupe s₀ { w with host := s } := by
  obtain ⟨es, hes⟩ := hw.plot
  exact ⟨hw.orderly.host s, hw.rest.congr rfl rfl, hd.staffed hw.staffed, hbilled, _,
    hes.append (hd.relates hother)⟩

theorem Rehearsing.refrains (hw : Rehearsing heard troupe s₀ w)
    (hs : Refrains heard troupe w.host s) :
    Rehearsing heard troupe s₀ { w with host := s } :=
  hw.leads (d := .other) hs.aloof (fun _ => hs.told) (hw.billed.congr hs.routes hs.posts)

theorem Rehearsing.exec (hw : Rehearsing heard troupe s₀ w)
    (hop : op.Grants (recording heard troupe))
    (hexec : World.exec fuel op w = some (r, w')) :
    Rehearsing heard troupe s₀ w' ∧ Recounts heard troupe w.host w'.host := by
  obtain ⟨horderly, hcontinues⟩ :=
    Conduct.preserves_exec (C := record heard troupe) ⟨trivial, hop⟩ hexec hw.orderly
  have hs : Recounts heard troupe w.host w'.host := hcontinues.host
  obtain ⟨es, hes⟩ := hw.plot
  obtain ⟨es', hes'⟩ := hs.plot hw.staffed hw.billed
  exact ⟨⟨horderly, atRest_exec hw.rest hexec, hes'.plot.staffed hw.staffed,
    hw.billed.congr hs.routes hs.posts, _, hes.append hes'⟩, hs⟩

structure Onstage (heard : δ → List (Signal κ)) (troupe : Speaker δ → Prop) (s₀ : Story δ) (i : Nat)
    (h : Handle) (w : World (Story δ)) : Prop extends Rehearsing heard troupe s₀ w where
  carries : w.host.Carries i h

structure Hushed (heard : δ → List (Signal κ)) (troupe : Speaker δ → Prop) (s₀ : Story δ) (i : Nat)
    (h : Handle) (w : World (Story δ)) : Prop extends Onstage heard troupe s₀ i h w where
  silent : w.host.speaking? i = none

theorem Onstage.refrains (hw : Onstage heard troupe s₀ i h w)
    (hs : Refrains heard troupe w.host s) :
    Onstage heard troupe s₀ i h { w with host := s } :=
  ⟨hw.toRehearsing.refrains hs, hw.carries.congr hs.posts⟩

theorem Onstage.exec (hw : Onstage heard troupe s₀ i h w) (hop : op.Grants (recording heard troupe))
    (hexec : World.exec fuel op w = some (r, w')) : Onstage heard troupe s₀ i h w' := by
  obtain ⟨hw', hs⟩ := hw.toRehearsing.exec hop hexec
  exact ⟨hw', hw.carries.congr hs.posts⟩

theorem Onstage.hush (hw : Onstage heard troupe s₀ i h w) :
    Hushed heard troupe s₀ i h { w with host := w.host.stopSpeaker i } := by
  have hstirs := w.host.stirs_stopSpeaker i
  have hw' := hw.toRehearsing.leads (d := .hush i) rfl nofun
    (hw.billed.congr hstirs.routes hstirs.posts)
  exact ⟨⟨hw', hw.carries.congr hstirs.posts⟩, w.host.speaking?_stopSpeaker i⟩

theorem Hushed.refrains (hw : Hushed heard troupe s₀ i h w) (hs : Refrains heard troupe w.host s) :
    Hushed heard troupe s₀ i h { w with host := s } :=
  ⟨hw.toOnstage.refrains hs, (hs.speaking? i).trans hw.silent⟩

theorem Hushed.exec (hw : Hushed heard troupe s₀ i h w) (hop : op.Grants (recording heard troupe))
    (hexec : World.exec fuel op w = some (r, w')) (hs : Refrains heard troupe w.host w'.host) :
    Hushed heard troupe s₀ i h w' :=
  ⟨hw.toOnstage.exec hop hexec, (hs.speaking? i).trans hw.silent⟩

theorem Hushed.close (hw : Hushed heard troupe s₀ i h w) {p : Phase} (hp : p.isOver = true)
    (hroute : p = .destroyed → ∀ h', w.host.route? h' ≠ some i) :
    Rehearsing heard troupe s₀ { w with host := w.host.modify i fun c => { c with phase := p } } ∧
      (w.host.modify i fun c => { c with phase := p }).Silent i p := by
  constructor
  · refine hw.leads (d := .close i p) ⟨hp, hw.carries.lives, hw.silent, rfl⟩ nofun fun h' j hj => ?_
    obtain ⟨c, hc, rfl, hphase⟩ := hw.billed h' j hj
    by_cases hi : i = j
    · subst hi
      refine ⟨{ c with phase := p }, by simp [Story.modify, hc], rfl, fun hdestroyed => ?_⟩
      exact hroute hdestroyed _ hj
    · exact ⟨c, by simp [Story.modify, hi, hc], rfl, hphase⟩
  · obtain ⟨q, hq, -⟩ := hw.carries.lives
    refine ⟨?_, (w.host.speaking?_close i i p).trans hw.silent⟩
    rw [Story.phase?_close, if_pos rfl, hq, Option.map_some]

theorem Hushed.unroute (hw : Hushed heard troupe s₀ i h w) :
    Hushed heard troupe s₀ i h
        { w with host := { w.host with routes := w.host.routes.filter (·.1 != h) } } ∧
      ∀ h', { w.host with routes := w.host.routes.filter (·.1 != h) }.route? h' ≠ some i := by
  have haloof : Aloof heard troupe w.host
      { w.host with routes := w.host.routes.filter (·.1 != h) } :=
    ⟨rfl, fun _ => rfl, id, fun _ => List.suffix_refl _, fun _ _ _ => id, fun _ => id⟩
  have hroute {h' : Handle} {j : Nat}
      (hj : { w.host with routes := w.host.routes.filter (·.1 != h) }.route? h' = some j) :
      h' ≠ h ∧ w.host.route? h' = some j := by
    rw [Story.route?_filter] at hj
    split at hj
    · cases hj
    · exact ⟨‹_›, hj⟩
  refine ⟨⟨⟨?_, hw.carries⟩, hw.silent⟩, fun h' hi => ?_⟩
  · exact hw.leads (d := .other) haloof (fun _ _ => rfl) fun h' j hj =>
      hw.billed h' j (hroute hj).2
  · obtain ⟨hne, hi⟩ := hroute hi
    obtain ⟨c, hc, rfl, -⟩ := hw.billed h' i hi
    obtain ⟨c', hc', hhandle, -⟩ := hw.carries
    cases hc.symm.trans hc'
    exact hne hhandle

theorem Onstage.start (hw : Onstage heard troupe s₀ i h w) {f : Conversation δ → Conversation δ}
    (hf : ∀ c, (f c).handle = c.handle ∧ (f c).speaker = c.speaker ∧ (f c).phase = .started)
    (hsaid : ∀ c, (f c).said = c.said) :
    Onstage heard troupe s₀ i h { w with host := w.host.modify i f } := by
  have hcarries {j : Nat} {h' : Handle} (hs : w.host.Carries j h') :
      (w.host.modify i f).Carries j h' := by
    obtain ⟨c, hc, rfl, hphase⟩ := hs
    by_cases hi : i = j
    · exact ⟨f c, by simp [Story.modify, hi, hc], (hf c).1, by simp [(hf c).2.2]⟩
    · exact ⟨c, by simp [Story.modify, hi, hc], rfl, hphase⟩
  have hphase (j : Nat) := w.host.phase?_modify i j fun c => (hf c).2.2
  have htold (j : Nat) : (w.host.modify i f).told j = w.host.told j :=
    w.host.told_modify i j hsaid
  have haloof : Aloof heard troupe w.host (w.host.modify i f) := by
    refine ⟨rfl, fun j => w.host.speaking?_modify i j fun c => (hf c).2.1, id,
      fun j => htold j ▸ List.suffix_refl _, fun j p hp hj => ?_, fun j hj => ?_⟩
    · rw [hphase] at hj
      split at hj
      · obtain ⟨-, -, rfl⟩ := Option.map_eq_some_iff.mp hj
        cases hp
      · exact hj
    · obtain ⟨p, hp, hlives⟩ := hw.carries.lives
      rw [hphase, if_neg, hj]
      rintro rfl
      cases hj.symm.trans hp
      exact hlives rfl
  exact ⟨hw.leads (d := .other) haloof (fun _ => htold) fun h' j hj =>
    hcarries (hw.billed h' j hj), hcarries hw.carries⟩

end World

namespace Telling

open World
open Story (Refrains recording)

variable {heard : δ → List (Signal κ)} {troupe : Speaker δ → Prop} {s₀ : Story δ}
  {w w' : World (Story δ)} {i fuel : Nat} {h : Handle}

end Telling

structure Responder.Refrains (heard : δ → List (Signal κ)) (r : Responder δ) : Prop where
  line : ∀ spoken x, heard (r.line spoken x) = heard x
  choose : ∀ cs x, heard (r.choose cs x).2 = heard x

def Act.Refrains (heard : δ → List (Signal κ)) : Act δ → Prop
  | play _ r => r.Refrains heard
  | _ => True

namespace Telling

open World
open Story (recording)

variable {heard : δ → List (Signal κ)} {troupe : Speaker δ → Prop} {s₀ : Story δ}
  {w w' : World (Story δ)} {i fuel : Nat} {h : Handle}

end Telling

namespace Story

open World (Rehearsing)

variable {heard : δ → List (Signal κ)} {troupe : Speaker δ → Prop} {s₀ : Story δ}
  {w w' : World (Story δ)}

/-- What can happen in a library: acts on its conversations, operations, and changes by the host.
Speakers are registered and removed at will, and called by nobody but the conversations. -/
inductive Happens (heard : δ → List (Signal κ)) (troupe : Speaker δ → Prop) :
    World (Story δ) → World (Story δ) → Prop
  | act {w w' : World (Story δ)} {a : Act δ} {fuel : Nat} {r : Except StoryError Unit}
    (ha : a.Obeys (recording heard troupe)) (hplay : a.Refrains heard)
    (hr : (a.telling fuel).Yields w r w') : Happens heard troupe w w'
  | operate {w w' : World (Story δ)} {fuel : Nat} {op : Operation (Story δ)} {r : Reply}
    (hop : op.Grants (recording heard troupe)) (hexec : World.exec fuel op w = some (r, w')) :
    Happens heard troupe w w'
  | update {w : World (Story δ)} {s : Story δ} (hs : Refrains heard troupe w.host s) :
    Happens heard troupe w { w with host := s }

inductive Rehearsed (heard : δ → List (Signal κ)) (troupe : Speaker δ → Prop) :
    World (Story δ) → Prop
  | create {handler : Severity → String → Story δ → Story δ} {s : Story δ}
    (hhandler : ∀ severity message s, Refrains heard troupe s (handler severity message s))
    (hengages : s.Engages troupe) (hconversations : s.conversations = [])
    (hroutes : s.routes = []) : Rehearsed heard troupe (.create handler s)
  | step {w w' : World (Story δ)} (hw : Rehearsed heard troupe w) (h : Happens heard troupe w w') :
    Rehearsed heard troupe w'

theorem Rehearsed.steps (hw : Rehearsed heard troupe w)
    (hsteps : Relation.ReflTransGen (Happens heard troupe) w w') : Rehearsed heard troupe w' := by
  induction hsteps with
  | refl => exact hw
  | tail _ h ih => exact ih.step h

def scribe (name : String) : Speaker (List (Signal String)) :=
  ⟨name, fun l log => log ++ [.start name l], fun log => log ++ [.stop name]⟩

def engage (w : World (Story (List (Signal String)))) (name : String) :
    World (Story (List (Signal String))) :=
  { w with host := { w.host with speakers := w.host.speakers.insert "mara" (scribe name) } }

end Story

end Dialogue
