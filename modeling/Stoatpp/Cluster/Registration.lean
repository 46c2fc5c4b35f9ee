import Stoatpp.Cluster.Commands

/-!
# `register_command`

A registration is kept twice: at the end of the list `dispatch_command` searches from its front,
and in a map under the name and every alias, where the last one stays. Nothing reads the map.
-/

namespace Stoatpp.Cluster

structure Registries where
  registeredCommands : List Command := []
  commands : Bytes → Option (Option (Events.Message → List Bytes → Bool)) := fun _ => none

def registerCommand (r : Registries) (cmd : Command) : Registries where
  registeredCommands := r.registeredCommands ++ [cmd]
  commands := cmd.aliases.foldl (fun table key => Function.update table key (some cmd.callback))
    (Function.update r.commands cmd.name (some cmd.callback))

def registerAll (cmds : List Command) : Registries := cmds.foldl registerCommand {}

def Command.Answers (c : Command) (token : Bytes) : Prop := token ∈ c.name :: c.aliases

instance (c : Command) (token : Bytes) : Decidable (c.Answers token) :=
  inferInstanceAs (Decidable (token ∈ c.name :: c.aliases))

/-! ## The two registries after any registrations -/

theorem foldl_update {α κ : Type} [DecidableEq κ] (value : α) (keys : List κ) (table : κ → α) (k : κ) :
    keys.foldl (fun table key => Function.update table key value) table k =
      if k ∈ keys then value else table k := by
  induction keys generalizing table with
  | nil => rfl
  | cons key keys ih =>
    rw [List.foldl_cons, ih]
    by_cases hk : k ∈ keys
    · rw [if_pos hk, if_pos (List.mem_cons_of_mem key hk)]
    · by_cases heq : k = key
      · rw [if_neg hk, heq, Function.update_self, if_pos List.mem_cons_self]
      · rw [if_neg hk, Function.update_of_ne heq, if_neg (by simp [hk, heq])]

theorem registerCommand_commands (r : Registries) (cmd : Command) (token : Bytes) :
    (registerCommand r cmd).commands token =
      if cmd.Answers token then some cmd.callback else r.commands token := by
  simp only [registerCommand, foldl_update]
  by_cases halias : token ∈ cmd.aliases
  · have hanswers : cmd.Answers token := List.mem_cons_of_mem cmd.name halias
    rw [if_pos halias, if_pos hanswers]
  · by_cases hname : token = cmd.name
    · have hanswers : cmd.Answers token := hname ▸ List.mem_cons_self
      rw [if_neg halias, if_pos hanswers, hname, Function.update_self]
    · have hanswers : ¬ cmd.Answers token := by simp [Command.Answers, halias, hname]
      rw [if_neg halias, if_neg hanswers, Function.update_of_ne hname]

theorem foldl_registerCommand (cmds : List Command) (r : Registries) (token : Bytes) :
    (cmds.foldl registerCommand r).registeredCommands = r.registeredCommands ++ cmds ∧
    (cmds.foldl registerCommand r).commands token =
      ((cmds.reverse.find? (·.Answers token)).map (·.callback) <|> r.commands token) := by
  induction cmds generalizing r with
  | nil => simp
  | cons cmd cmds ih =>
    obtain ⟨hlist, htable⟩ := ih (registerCommand r cmd)
    rw [List.foldl_cons]
    constructor
    · rw [hlist, registerCommand, List.append_assoc]
      rfl
    · rw [htable, registerCommand_commands, List.reverse_cons, List.find?_append]
      cases cmds.reverse.find? (·.Answers token) with
      | some c => rfl
      | none =>
        by_cases hcmd : cmd.Answers token
        · simp [hcmd]
        · simp [hcmd]

theorem registerAll_list (cmds : List Command) : (registerAll cmds).registeredCommands = cmds :=
  (foldl_registerCommand cmds {} []).1

/-- The map holds the last registration. -/
theorem registerAll_commands (cmds : List Command) (token : Bytes) :
    (registerAll cmds).commands token = (cmds.reverse.find? (·.Answers token)).map (·.callback) := by
  rw [registerAll, (foldl_registerCommand cmds {} token).2]
  cases (cmds.reverse.find? (·.Answers token)) <;> rfl

variable {cmds before after : List Command} {c : Command} {token : Bytes}

theorem find?_first {p : Command → Bool} (hc : p c = true) (hbefore : ∀ c' ∈ before, p c' = false) :
    (before ++ c :: after).find? p = some c := by
  rw [List.find?_append, List.find?_eq_none.mpr fun c' hc' => by simp [hbefore c' hc'],
    List.find?_cons_of_pos hc]
  rfl

theorem findCommand_named (hc : c.name = token) (hbefore : ∀ c' ∈ before, c'.name ≠ token) :
    findCommand false (before ++ c :: after) token = some c := by
  have hfirst : (before ++ c :: after).find? (fun c => decide (c.name = token)) = some c :=
    find?_first (decide_eq_true hc) fun c' hc' => decide_eq_false (hbefore c' hc')
  simp only [findCommand, Bool.false_eq_true, if_false, id_eq, hfirst]
  rfl

theorem findCommand_alias (hnames : ∀ c' ∈ before ++ c :: after, c'.name ≠ token) (hc : token ∈ c.aliases)
    (hbefore : ∀ c' ∈ before, token ∉ c'.aliases) :
    findCommand false (before ++ c :: after) token = some c := by
  have hname : (before ++ c :: after).find? (fun c => decide (c.name = token)) = none :=
    List.find?_eq_none.mpr fun c' hc' => by simp [hnames c' hc']
  have hfirst : (before ++ c :: after).find? (fun c => c.aliases.any fun a => decide (a = token)) = some c :=
    find?_first (by simpa using hc) fun c' hc' =>
      List.any_eq_false.mpr fun a ha => by
        have hne : a ≠ token := fun heq => hbefore c' hc' (heq ▸ ha)
        simpa using hne
  simp only [findCommand, Bool.false_eq_true, if_false, id_eq, hname, hfirst]
  rfl

theorem findCommand_eq_none {caseInsensitive : Bool} :
    findCommand caseInsensitive cmds token = none ↔
      ∀ c ∈ cmds, ∀ name ∈ c.name :: c.aliases,
        (if caseInsensitive then toLower else id) name ≠ (if caseInsensitive then toLower else id) token := by
  simp only [findCommand, Option.orElse_eq_none, List.find?_eq_none, List.any_eq_true,
    decide_eq_true_iff, List.forall_mem_cons, not_exists, not_and]
  constructor
  · rintro ⟨hname, halias⟩ c hc
    exact ⟨hname c hc, halias c hc⟩
  · intro h
    exact ⟨fun c hc => (h c hc).1, fun c hc => (h c hc).2⟩

theorem findCommand_none_iff : findCommand false cmds token = none ↔ ∀ c ∈ cmds, ¬ c.Answers token := by
  rw [findCommand_eq_none]
  refine forall₂_congr fun c _ => ?_
  simp only [Bool.false_eq_true, if_false, id_eq, Command.Answers]
  constructor
  · intro h hmem
    exact h token hmem rfl
  · rintro h name hname rfl
    exact h hname

theorem registerAll_commands_none :
    (registerAll cmds).commands token = none ↔ ∀ c ∈ cmds, ¬ c.Answers token := by
  rw [registerAll_commands, Option.map_eq_none_iff, List.find?_eq_none]
  simp

theorem registerAll_commands_last (hc : c.Answers token) (hafter : ∀ c' ∈ after, ¬ c'.Answers token) :
    (registerAll (before ++ c :: after)).commands token = some c.callback := by
  have hlast : (before ++ c :: after).reverse.find? (fun c => decide (c.Answers token)) = some c := by
    rw [List.reverse_append, List.reverse_cons, List.append_assoc, List.singleton_append]
    exact find?_first (decide_eq_true hc) fun c' hc' => decide_eq_false (hafter c' (List.mem_reverse.mp hc'))
  rw [registerAll_commands, hlast]
  rfl

/-- The command the two passes stop at, with what is registered before it and behind it. -/
def Selected (before : List Command) (c : Command) (after : List Command) (token : Bytes) : Prop :=
  c.name = token ∧ (∀ c' ∈ before, c'.name ≠ token) ∨
    (∀ c' ∈ before ++ c :: after, c'.name ≠ token) ∧
      token ∈ c.aliases ∧ ∀ c' ∈ before, token ∉ c'.aliases

theorem Selected.findCommand (h : Selected before c after token) :
    findCommand false (before ++ c :: after) token = some c := by
  rcases h with ⟨hc, hbefore⟩ | ⟨hnames, hc, hbefore⟩
  · exact findCommand_named hc hbefore
  · exact findCommand_alias hnames hc hbefore

theorem Selected.answers (h : Selected before c after token) : c.Answers token := by
  rcases h with ⟨rfl, -⟩ | ⟨-, hc, -⟩
  · exact List.mem_cons_self
  · exact List.mem_cons_of_mem _ hc

theorem exists_selected (h : findCommand false cmds token ≠ none) :
    ∃ before c after, cmds = before ++ c :: after ∧ Selected before c after token := by
  cases hname : cmds.find? (fun c => decide (c.name = token)) with
  | some c =>
    obtain ⟨hc, before, after, rfl, hbefore⟩ := List.find?_eq_some_iff_append.mp hname
    refine ⟨before, c, after, rfl, Or.inl ⟨of_decide_eq_true hc, fun c' hc' => ?_⟩⟩
    simpa using hbefore c' hc'
  | none =>
    have hnames : ∀ c ∈ cmds, c.name ≠ token := by simpa using hname
    cases halias : cmds.find? (fun c => decide (token ∈ c.aliases)) with
    | some c =>
      obtain ⟨hc, before, after, rfl, hbefore⟩ := List.find?_eq_some_iff_append.mp halias
      refine ⟨before, c, after, rfl, Or.inr ⟨hnames, of_decide_eq_true hc, fun c' hc' => ?_⟩⟩
      simpa using hbefore c' hc'
    | none =>
      refine absurd (findCommand_none_iff.mpr fun c hc hanswers => ?_) h
      have haliases : ∀ c ∈ cmds, token ∉ c.aliases := by simpa using halias
      rcases List.mem_cons.mp hanswers with heq | hmem
      · exact hnames c hc heq.symm
      · exact haliases c hc hmem

/-- The two registries know the same tokens. The list yields the first command named so, else the
first with such an alias; the map holds the last with either; they agree on a token that nothing
registered behind the selected command takes over. -/
theorem registries_compared (cmds : List Command) (token : Bytes) :
    let r := registerAll cmds
    (findCommand false r.registeredCommands token = none ↔ r.commands token = none) ∧
    (r.commands token ≠ none → ∃ before c after, cmds = before ++ c :: after ∧
      Selected before c after token ∧ findCommand false r.registeredCommands token = some c ∧
      ((∀ c' ∈ after, ¬ c'.Answers token) → r.commands token = some c.callback)) ∧
    (∀ before c after, cmds = before ++ c :: after → c.Answers token →
      (∀ c' ∈ after, ¬ c'.Answers token) → r.commands token = some c.callback) := by
  intro r
  have hnone : findCommand false r.registeredCommands token = none ↔ r.commands token = none := by
    rw [registerAll_list, registerAll_commands_none, findCommand_none_iff]
  refine ⟨hnone, fun hsome => ?_, ?_⟩
  · have hfound : findCommand false cmds token ≠ none := by
      rw [registerAll_list] at hnone
      exact fun hfind => hsome (hnone.mp hfind)
    obtain ⟨before, c, after, rfl, hselected⟩ := exists_selected hfound
    refine ⟨before, c, after, rfl, hselected, ?_, registerAll_commands_last hselected.answers⟩
    rw [registerAll_list]
    exact hselected.findCommand
  · rintro before c after rfl
    exact registerAll_commands_last

def builtInHelp : Command where
  name := bytes "help"
  callback := some fun _ _ => true

def ownHelp : Command where
  name := bytes "help"
  callback := some fun _ _ => false

theorem help_registered_again : ¬ ∀ (cmds : List Command) (token : Bytes),
    (∀ c, findCommand false (registerAll cmds).registeredCommands token = some c →
      (registerAll cmds).commands token = some c.callback) ∧
    (findCommand false (registerAll cmds).registeredCommands token = none ↔
      (registerAll cmds).commands token = none) := by
  intro h
  have hfound : findCommand false (registerAll [builtInHelp, ownHelp]).registeredCommands (bytes "help") =
      some builtInHelp := by
    rfl
  have hcalled := (h [builtInHelp, ownHelp] (bytes "help")).1 builtInHelp hfound
  have hstored : (registerAll [builtInHelp, ownHelp]).commands (bytes "help") = some ownHelp.callback := rfl
  have hreturns := congrArg (·.map (·.map (· {} []))) (hstored.symm.trans hcalled)
  exact absurd hreturns (by decide)

end Stoatpp.Cluster
