import Dialogue.CommandLine
import Dialogue.Proofs.CommandLine.Play
import Dialogue.Proofs.Container.Grammar
import Dialogue.Proofs.Container.Listing

namespace Dialogue

namespace Command

variable {α β : Type} {t : Terminal}

def on (m : Command α) (t : Terminal) : Option (Except Failure α × Terminal) :=
  Terminal.perform m.run t

theorem on_bind {m : Command α} {a : α} {t' : Terminal} (h : m.on t = some (.ok a, t'))
    (f : α → Command β) : (m >>= f).on t = (f a).on t' := by
  change Terminal.perform (Bind.bind m.run _) t = _
  change Terminal.perform m.run t = _ at h
  rw [Terminal.perform_bind, h]
  rfl

theorem on_liftM (c : Console α) (t : Terminal) :
    (liftM c : Command α).on t = (Terminal.perform c t).map fun r => (.ok r.1, r.2) := by
  change Terminal.perform (c >>= fun a => pure (Except.ok a)) t = _
  rw [Terminal.perform_bind]
  cases Terminal.perform c t <;> rfl

theorem on_ofExcept {ε : Type} (failure : ε → Failure) (r : Except ε α) (t : Terminal) :
    (ofExcept failure r).on t = some (r.mapError failure, t) := rfl

end Command

namespace Inspection

variable {t : Terminal} {bytes : Bytes} {c : Container}

theorem readContainer_on {file : String} (hread : t.files.read file = .ok bytes)
    (hparse : Container.parse bytes = .ok c) : (readContainer file).on t = some (.ok c, t) := by
  have hdisk : (liftM (Console.readFile file .done) : Command (Except FileError Bytes)).on t =
      some (.ok (.ok bytes), t) := by
    rw [Command.on_liftM, Terminal.perform, Terminal.perform, hread]
    rfl
  have hbytes (failure : FileError → Failure) :
      (Command.ofExcept failure (.ok bytes)).on t = some (.ok bytes, t) := rfl
  rw [readContainer, Command.on_bind hdisk, Command.on_bind (hbytes _), Command.on_ofExcept, hparse]
  rfl

theorem printLines_on (lines : List String) (t : Terminal) :
    (liftM (Console.printLines lines) : Command Unit).on t =
      some (.ok (), { t with output := t.output ++ Terminal.text lines }) := by
  rw [Command.on_liftM, Terminal.perform_printLines]
  rfl

theorem showInstructions_on (hsweep : c.sweep.failure = none) (t : Terminal) :
    (showInstructions c).on t =
      some (.ok (), { t with output := t.output ++ Terminal.text c.disassembly }) := by
  rw [showInstructions, Command.on_bind (printLines_on _ t), hsweep]
  rfl

def report (i : Inspection) (c : Container) : List String :=
  if i.asDocument then [c.tables.linedText] else c.tableLines

theorem run_on {i : Inspection} (hi : i.disassemble = true)
    (hread : t.files.read i.file = .ok bytes) (hparse : Container.parse bytes = .ok c)
    (hsweep : c.sweep.failure = none) : i.run.on t =
      some (.ok (), { t with
        output := t.output ++ Terminal.text (i.report c ++ c.disassembly) }) := by
  rw [run, Command.on_bind (readContainer_on hread hparse), Command.on_bind (printLines_on _ t),
    if_pos hi, showInstructions_on hsweep, Terminal.text_append, String.append_assoc]
  rfl

/-- An inspection of code that can be read to its end prints all instructions, in order, and
between them labels. A bough is named once, directly before the instruction at its entry, if it is
the first of its entry in the table, and not at all if it comes after another or stands at the end
of the code. So all boughs are named only if all have entries of their own before the end. -/
theorem named_iff_leads {i : Inspection} (hi : i.disassemble = true)
    (hread : t.files.read i.file = .ok bytes) (hparse : Container.parse bytes = .ok c)
    {steps : List (Nat × Instruction)} (hlisted : c.Listed 0 steps c.code.size) :
    ∃ lines : List String,
      Terminal.perform i.run.run t = some (.ok (), { t with
        output := t.output ++ Terminal.text (i.report c ++ "" :: "Code:" :: lines) }) ∧
      lines.filter (fun line => !line.endsWith ':') = steps.map Container.stepLine ∧
      (∀ line ∈ lines, line.endsWith ':' → ∃ b ∈ c.boughs, line = b.label) ∧
      (∀ b ∈ c.boughs, lines.count b.label ≤ 1 ∧
        (b.label ∈ lines ↔ c.Leads b ∧ b.entry.toNat ∈ steps.map (·.1)) ∧
        ∀ step ∈ steps, c.Leads b → step.1 = b.entry.toNat →
          [b.label, Container.stepLine step] <:+: lines) ∧
      ((∀ b ∈ c.boughs, lines.count b.label = 1) ↔
        (c.boughs.map (·.entry)).Nodup ∧ ∀ b ∈ c.boughs, b.entry.toNat ∈ steps.map (·.1)) := by
  have hsweep := Container.sweep_of_listed hlisted
  have hnames := (Container.parse_iff_formed.mp hparse).distinct.boughNames
  obtain ⟨-, hoffsets⟩ := hlisted.offsets rfl
  have hcount {b : Bough} (hb : b ∈ c.boughs) : (c.linesOf steps).count b.label ≤ 1 :=
    Container.count_label_linesOf hnames hoffsets hb
  refine ⟨c.linesOf steps, ?_, Container.filter_linesOf c steps, ?_, ?_, ?_⟩
  · have hlines : c.disassembly = "" :: "Code:" :: c.linesOf steps := by
      rw [Container.disassembly, hsweep]
      rfl
    rw [← hlines]
    exact run_on hi hread hparse (by rw [hsweep])
  · intro line hline hcolon
    obtain ⟨step, -, rfl⟩ | ⟨b, hleads, -, rfl⟩ := Container.mem_linesOf hline
    · rw [Container.endsWith_stepLine] at hcolon
      cases hcolon
    · exact ⟨b, Container.mem_boughs hleads, rfl⟩
  · intro b hb
    refine ⟨hcount hb, Container.label_mem_linesOf_iff hnames hb, ?_⟩
    rintro ⟨ip, i⟩ hstep hleads hip
    obtain rfl : ip = b.entry.toNat := hip
    obtain ⟨before, after, hlines, -, -⟩ := Container.linesOf_eq hnames hoffsets hleads hstep
    exact ⟨before, after, hlines.symm⟩
  · rw [← Container.leads_iff_nodup hnames, ← forall₂_and]
    apply forall₂_congr
    intro b hb
    rw [← Container.label_mem_linesOf_iff hnames hb, ← List.one_le_count_iff]
    have := hcount hb
    omega

def quay : Bytes := (magic ++ [1, 0, 0, 0] ++ Container.tableBytes Container.globalBytes [] ++
  Container.tableBytes (Container.boughBytes .sequential)
    [⟨"main", 0⟩, ⟨"alias", 0⟩, ⟨"coda", 1⟩] ++ [0]).toArray

/-- Of the three, the listing has the name of the first. -/
theorem named_iff_leads_quay :
    let t : Terminal := { input := [], files := { contents := .ofList [("quay", quay)] } }
    let i : Inspection := ⟨"quay", false, true⟩
    ∃ c lines, Container.parse quay = .ok c ∧
      Terminal.perform i.run.run t = some (.ok (), { t with
        output := t.output ++ Terminal.text (i.report c ++ "" :: "Code:" :: lines) }) ∧
      lines.count "main:" = 1 ∧ "alias:" ∉ lines ∧ "coda:" ∉ lines := by
  intro t i
  have hquay : (Container.parse quay).toOption.map (fun c => (c.boughs, c.code)) =
      some ([⟨"main", 0⟩, ⟨"alias", 0⟩, ⟨"coda", 1⟩], #[0]) := by decide +kernel
  obtain ⟨c, hparse, hc⟩ := Option.map_eq_some_iff.mp hquay
  rw [Except.toOption_eq_some_iff] at hparse
  obtain ⟨hboughs, hcode⟩ := Prod.mk.inj hc
  have hlisted : c.Listed 0 [(0, .stop)] c.code.size := by
    have hstop : c.instruction 0 = .ok (.stop, 1) := by
      rw [Container.instruction, hcode]
      rfl
    rw [hcode]
    exact .cons hstop (.nil 1)
  have hparts : "quay".splitOn "/" = ["quay"] := by
    rw [String.splitOn, if_neg (by decide)]
    iterate 4 rw [String.splitOnAux, if_neg (by decide), if_neg (by decide)]
    rw [String.splitOnAux, if_pos (by decide)]
    decide
  have hroute : t.files.route "quay" = .ok ([], ["quay"]) := by
    rw [Files.route, hparts, if_neg (by simp), if_neg (by simp), if_neg (by decide),
      if_neg (by simp)]
  have hread : t.files.read "quay" = .ok quay := by
    rw [Files.read, Files.find, hroute]
    rfl
  obtain ⟨lines, hrun, -, -, hlabels, -⟩ :=
    named_iff_leads (i := i) rfl hread hparse hlisted
  rw [hboughs] at hlabels
  refine ⟨c, lines, hparse, hrun, ?_, fun h => ?_, fun h => ?_⟩
  · obtain ⟨hle, hmem, -⟩ := hlabels ⟨"main", 0⟩ (by decide)
    have hmain := List.one_le_count_iff.mpr (hmem.mpr ⟨⟨[], _, hboughs, nofun⟩, by decide⟩)
    exact Nat.le_antisymm hle hmain
  · obtain ⟨-, hmem, -⟩ := hlabels ⟨"alias", 0⟩ (by decide)
    have hfind := Container.find?_entry_iff.mpr ⟨rfl, (hmem.mp h).1⟩
    rw [hboughs] at hfind
    exact absurd hfind (by decide)
  · obtain ⟨-, hmem, -⟩ := hlabels ⟨"coda", 1⟩ (by decide)
    exact absurd (hmem.mp h).2 (by decide)

end Inspection

end Dialogue
