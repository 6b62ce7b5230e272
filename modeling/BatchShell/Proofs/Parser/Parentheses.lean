import BatchShell.Proofs.Parser.Grammar

/-!
# Missing parentheses

A line is said to lack a closing parenthesis in one of two ways. Either more parentheses are opened than closed
from some token on, or a sequence inside a block ends before a token that can follow no command (`Stray`): then
the parenthesis that would close the block may well be there.

* `Spells.rise_nonneg`: what is spelled inside a block closes no parenthesis but its own.
* `Spells.unclosed_leaf`: where parentheses stay open, a simple command or a remark leaves them open.
* `commandReader_blames`, `missing_of_ofTokens?`: what a complaint of a missing parenthesis means.
-/
namespace BatchShell.Parser

/-! ## What is spelled -/

/-- A token that joins or separates commands is no parenthesis. -/
theorem tokenRise_of_isOp {t : Token} {op : Operator} (h : t.isOp op = true) (hopen : op ≠ .openParen)
    (hclose : op ≠ .closeParen) : tokenRise t = 0 := by
  simp [tokenRise, isOp_eq_false h hopen, isOp_eq_false h hclose]

theorem Breaks.rise_eq {oneLine : Bool} {ts : List Token} (h : Breaks oneLine ts) : rise ts = 0 := by
  have hall := h.1
  induction ts with
  | nil => rfl
  | cons t ts ih =>
    obtain ⟨ht, hts⟩ := List.forall_mem_cons.mp hall
    rw [rise_cons, tokenRise_of_isOp ht (by decide) (by decide), ih ⟨hts, fun hone => by cases h.2 hone⟩ hts]
    rfl

theorem Separator.rise_eq {oneLine : Bool} {ts : List Token} (h : Separator oneLine ts) : rise ts = 0 := by
  obtain ⟨t, breaks, rfl, hsep, hbreaks⟩ := h
  have hzero : tokenRise t = 0 := by
    obtain h | h := separates_cases hsep <;> exact tokenRise_of_isOp h (by decide) (by decide)
  rw [rise_cons, hzero, hbreaks.rise_eq]
  rfl

theorem Ending.rise_eq {oneLine : Bool} {m n : Int} {ts : List Token} (h : Ending oneLine m n ts) :
    rise ts = 0 := by
  obtain ⟨rfl, -⟩ | ⟨hsep, -⟩ := h
  · rfl
  · exact hsep.rise_eq

theorem rise_of_passes {ts run rest : List Token} (h : Passes ts rest) (hts : ts = run ++ rest) :
    rise run = 0 := by
  have hrise := h.rise_eq
  rw [hts, rise_append] at hrise
  omega

theorem IfHead.rise_eq {ts : List Token} {asked : Condition} (h : IfHead ts asked) : rise ts = 0 := by
  obtain ⟨lineEnd, after, -, hread⟩ := h
  exact rise_of_passes (ifHead_ok hread) rfl

theorem ElseWord.rise_eq {ts : List Token} (h : ElseWord ts) : rise ts = 0 := by
  obtain ⟨all, w, rest, hword, hall, -⟩ := h
  exact rise_of_passes (passes_word? hword) hall

theorem ForHead.rise_eq {ts : List Token} {head : LoopHead} (h : ForHead ts head) : rise ts = 0 := by
  obtain ⟨lineEnd, after, -, hread⟩ := h
  obtain ⟨hlt, hread⟩ := bare_eq_ok.mp hread
  exact rise_of_passes (loopHead_ok hread) rfl

theorem rise_of_redirections {ts : List Token} {rs : List Redirection}
    (h : bare (redirectionsFrom ts) = .ok (rs, [])) : rise ts = 0 := by
  obtain ⟨run, hrun, hrise, -⟩ := redirectionsFrom_run h
  rw [List.append_nil] at hrun
  rwa [hrun]

theorem rise_nonneg_of_no_close {ts : List Token} (h : ∀ t ∈ ts, t.isOp .closeParen = false) : 0 ≤ rise ts := by
  induction ts with
  | nil => exact Int.le_refl 0
  | cons t ts ih =>
    obtain ⟨ht, hts⟩ := List.forall_mem_cons.mp h
    have hpos : 0 ≤ tokenRise t := by
      rw [tokenRise, ht]
      split <;> decide
    have hrest := ih hts
    rw [rise_cons]
    omega

/-- Parentheses that runs leave open together are left open by one of them. -/
theorem exists_rise_pos {runs : List (List Token)} (h : 0 < rise runs.flatten) : ∃ run ∈ runs, 0 < rise run := by
  induction runs with
  | nil => cases h
  | cons run runs ih =>
    rw [List.flatten_cons, rise_append] at h
    by_cases hrun : 0 < rise run
    · exact ⟨run, List.mem_cons_self, hrun⟩
    · obtain ⟨run', hmem, hpos⟩ := ih (by omega)
      exact ⟨run', List.mem_cons_of_mem run hmem, hpos⟩

theorem rise_flatten_nonneg {runs : List (List Token)} (h : ∀ run ∈ runs, 0 ≤ rise run) :
    0 ≤ rise runs.flatten := by
  induction runs with
  | nil => exact Int.le_refl 0
  | cons run runs ih =>
    obtain ⟨hrun, hruns⟩ := List.forall_mem_cons.mp h
    have hrest := ih hruns
    rw [List.flatten_cons, rise_append]
    omega

/-- A command without commands in it: a simple command or, where remarks end at a closing parenthesis when
`inBlock`, a remark. -/
inductive Leaf (inBlock : Bool) : List Token → Prop where
  | simple {t us c} (hstart : t.isOperator = false) (hread : bare (simple t us) = .ok (c, [])) :
      Leaf inBlock (t :: us)
  | remark {within t us} (hwithin : inBlock = true → within = true)
      (hword : keywordAt (t :: us) = some "REM") (hall : (remark within us).2.val = []) : Leaf inBlock (t :: us)

/-- What is outside a block holds what is inside. -/
theorem Leaf.outside {ts : List Token} (h : Leaf true ts) (inBlock : Bool) : Leaf inBlock ts := by
  cases h with
  | simple hstart hread => exact .simple hstart hread
  | remark hwithin hword hall => exact .remark (fun _ => hwithin rfl) hword hall

theorem Leaf.rise_nonneg {ts : List Token} (h : Leaf true ts) : 0 ≤ rise ts := by
  cases h with
  | simple hstart hread =>
    obtain ⟨run, hrun, hpos, -⟩ := simple_ok hstart hread
    rw [List.append_nil] at hrun
    rwa [hrun]
  | @remark within t us hwithin hword hall =>
    obtain ⟨run, hrun, -, -, hclose, -⟩ := remark_rest within us
    rw [hall, List.append_nil] at hrun
    subst hrun
    have hword := tokenRise_of_not_operator (isOperator_of_isWord (isWord_of_keywordAt hword))
    have hpos : 0 ≤ rise us := rise_nonneg_of_no_close fun u hu => hclose u hu (hwithin rfl)
    rw [rise_cons, hword]
    omega

/-- The parentheses that a run of tokens leaves open are left open by leaves in it. -/
def Leaves (inBlock : Bool) (run : List Token) : Prop :=
  ∃ leaves : List (List Token), (∀ leaf ∈ leaves, leaf <:+: run ∧ Leaf inBlock leaf) ∧
    rise run = rise leaves.flatten

namespace Leaves

variable {inBlock : Bool} {run run' : List Token}

theorem level (h : rise run = 0) : Leaves inBlock run := ⟨[], by simp, h⟩

theorem leaf (h : Leaf inBlock run) : Leaves inBlock run :=
  ⟨[run], by simpa using h, by simp⟩

theorem append (h : Leaves inBlock run) (h' : Leaves inBlock run') : Leaves inBlock (run ++ run') := by
  obtain ⟨leaves, hall, hrise⟩ := h
  obtain ⟨leaves', hall', hrise'⟩ := h'
  refine ⟨leaves ++ leaves', ?_, by simp [hrise, hrise']⟩
  intro leaf hleaf
  obtain hleaf | hleaf := List.mem_append.mp hleaf
  · exact ⟨(hall leaf hleaf).1.trans (List.prefix_append run run').isInfix, (hall leaf hleaf).2⟩
  · exact ⟨(hall' leaf hleaf).1.trans (List.suffix_append run run').isInfix, (hall' leaf hleaf).2⟩

/-- A token that joins two runs. -/
theorem join (h : Leaves inBlock run) {t : Token} (ht : tokenRise t = 0) (h' : Leaves inBlock run') :
    Leaves inBlock (run ++ t :: run') := by
  have hsign : Leaves inBlock [t] := level (by simp [ht])
  exact h.append (hsign.append h')

/-- A block has the leaves of its body. -/
theorem enclose (h : Leaves true run) {opened closed : Token} {after : List Token}
    (hopen : opened.isOp .openParen = true) (hclose : closed.isOp .closeParen = true) (hafter : rise after = 0) :
    Leaves inBlock (opened :: (run ++ closed :: after)) := by
  obtain ⟨leaves, hall, hrise⟩ := h
  refine ⟨leaves, ?_, ?_⟩
  · intro leaf hleaf
    exact ⟨(hall leaf hleaf).1.trans ⟨[opened], closed :: after, by simp⟩, (hall leaf hleaf).2.outside inBlock⟩
  · rw [rise_cons, rise_append, rise_cons, tokenRise_open hopen, tokenRise_close hclose, hafter, hrise]
    omega

end Leaves

theorem Spells.leaves {forms : Bool} {depth : Nat} {inBlock : Bool} {part : Part} {n : Int} {run : List Token}
    {c : Command} (h : Spells forms depth inBlock part n run c) : Leaves inBlock run := by
  induction h with
  | simple hstart _ hread => exact .leaf (.simple hstart hread)
  | block hopen _ hclose hafter ih => exact ih.enclose hopen hclose (rise_of_redirections hafter)
  | emptyBlock hopen hbreaks hclose hafter =>
    exact (Leaves.level hbreaks.rise_eq).enclose hopen hclose (rise_of_redirections hafter)
  | remark _ hword hall => exact .leaf (.remark id hword hall)
  | ifThen _ hhead _ ih => exact (Leaves.level hhead.rise_eq).append ih
  | ifElse _ hhead _ hword _ ih ih' =>
    exact (Leaves.level hhead.rise_eq).append (ih.append ((Leaves.level hword.rise_eq).append ih'))
  | loop _ hhead _ ih => exact (Leaves.level hhead.rise_eq).append ih
  | enclosed _ ih | stage _ ih | link _ ih | item _ ih => exact ih
  | inline _ _ ih => exact ih
  | pipe _ hbar _ ih ih' => exact ih.join (tokenRise_of_isOp hbar (by decide) (by decide)) ih'
  | join _ hsign _ ih ih' =>
    refine ih.join ?_ ih'
    obtain hsign | hsign := Bool.or_eq_true_iff.mp hsign <;> exact tokenRise_of_isOp hsign (by decide) (by decide)
  | both _ hbetween _ ih ih' => exact ih.append ((Leaves.level hbetween.rise_eq).append ih')
  | lines hbreaks _ hending ih =>
    exact (Leaves.level hbreaks.rise_eq).append (ih.append (.level hending.rise_eq))

section

variable {forms : Bool} {depth : Nat} {inBlock : Bool} {part : Part} {n : Int} {run : List Token} {c : Command}

/-- What is spelled inside a block closes no parenthesis that it did not open. -/
theorem Spells.rise_nonneg (h : Spells forms depth true part n run c) : 0 ≤ rise run := by
  obtain ⟨leaves, hall, hrise⟩ := h.leaves
  rw [hrise]
  exact rise_flatten_nonneg fun leaf hleaf => (hall leaf hleaf).2.rise_nonneg

/-- Where parentheses stay open, a simple command or a remark leaves them open. -/
theorem Spells.unclosed_leaf (h : Spells forms depth inBlock part n run c) (hpos : 0 < rise run) :
    ∃ leaf, leaf <:+: run ∧ Leaf inBlock leaf ∧ 0 < rise leaf := by
  obtain ⟨leaves, hall, hrise⟩ := h.leaves
  obtain ⟨leaf, hleaf, hleafPos⟩ := exists_rise_pos (hrise ▸ hpos)
  exact ⟨leaf, (hall leaf hleaf).1, (hall leaf hleaf).2, hleafPos⟩

end

/-! ## Complaints -/

theorem noParen_redirectTarget (t : Token) (sign : RedirectSign) (ts : List Token) :
    NoParen (bare (redirectTarget t sign ts)) := by
  obtain ⟨d, -, heq⟩ | ⟨-, u, us, rfl, -, heq⟩ | ⟨-, -, heq⟩ := redirectTarget_cases t sign ts
  · rw [heq]
    exact .ok _
  · rw [heq]
    exact .ok _
  · rw [heq]
    exact .error (by simp)

theorem noParen_redirectionsFrom (ts : List Token) : NoParen (bare (redirectionsFrom ts)) := by
  obtain ⟨len, hlen⟩ : ∃ len, ts.length = len := ⟨_, rfl⟩
  induction len using Nat.strongRecOn generalizing ts with
  | _ len ih =>
    cases ts with
    | nil =>
      rw [redirectionsFrom_nil]
      exact .ok _
    | cons t us =>
      by_cases hsign : ∃ sign, t.lexeme = .redirect sign
      · obtain ⟨sign, hsign⟩ := hsign
        rw [redirectionsFrom_redirect hsign]
        refine NoParen.bind (noParen_redirectTarget t sign us) ?_
        rintro ⟨r, rest⟩ hr
        have hle := of_bare hr
        refine NoParen.bind (ih rest.length (by simp at hlen; omega) rest rfl) fun _ _ => .ok _
      · rw [redirectionsFrom_stop (fun sign hsig => hsign ⟨sign, hsig⟩) us]
        exact .ok _

theorem noParen_simpleFrom (s : SimpleScan) (ts : List Token) : NoParen (bare (simpleFrom s ts)) := by
  obtain ⟨len, hlen⟩ : ∃ len, ts.length = len := ⟨_, rfl⟩
  induction len using Nat.strongRecOn generalizing s ts with
  | _ len ih =>
    cases ts with
    | nil =>
      rw [simpleFrom_nil]
      exact .ok _
    | cons t us =>
      have hus : us.length < len := by simp at hlen; omega
      obtain ⟨lexeme, start, stop, leading⟩ := t
      rw [simpleFrom_cons]
      cases lexeme with
      | word text quoted => exact ih _ hus _ us rfl
      | redirect sign =>
        refine NoParen.bind (noParen_redirectTarget _ sign us) ?_
        rintro ⟨r, rest⟩ hr
        have hle := of_bare hr
        exact ih rest.length (by omega) _ rest rfl
      | operator op =>
        cases op with
        | openParen => exact ih _ hus _ us rfl
        | closeParen =>
          dsimp only
          split
          · exact ih _ hus _ us rfl
          · exact .ok _
        | _ => exact .ok _

/-- In the block that is opened at place `o` a sequence is followed by a token that can follow no command. -/
def Stray (o : Nat) (ts : List Token) : Prop :=
  ∃ before opened run u after, ts = before ++ opened :: (run ++ u :: after) ∧
    opened.isOp .openParen = true ∧ opened.start = o ∧
    (∃ depth n c, Spells true depth true (.lines false) n run c) ∧
    (u.isOperator = false ∨ u.isOp .openParen = true)

/-- Why a parenthesis is missed at place `o`: one stays open, or the block is not read to its end. -/
def Missing (o : Nat) (ts : List Token) : Prop := (∃ us, us <:+ ts ∧ 0 < rise us) ∨ Stray o ts

theorem Missing.of_suffix {o : Nat} {us ts : List Token} (h : Missing o us) (hus : us <:+ ts) :
    Missing o ts := by
  obtain ⟨vs, hvs, hrise⟩ | ⟨before, opened, run, u, after, rfl, hrest⟩ := h
  · exact .inl ⟨vs, hvs.trans hus, hrise⟩
  · obtain ⟨more, rfl⟩ := hus
    exact .inr ⟨more ++ before, opened, run, u, after, by simp, hrest⟩

/-- A reader complains of a parenthesis only where one is missing. -/
def Blames {α : Type} (r : Reading α) (ts : List Token) : Prop :=
  ∀ e, r = .error e → e.fault = .unclosedParen → Missing e.offset ts

theorem NoParen.blames {α : Type} {r : Reading α} (h : NoParen r) (ts : List Token) : Blames r ts :=
  fun e he hfault => absurd hfault (h e he)

theorem Blames.ok {α : Type} (a : α) (ts : List Token) : Blames (.ok a) ts := (NoParen.ok a).blames ts

theorem Blames.of_suffix {α : Type} {r : Reading α} {us ts : List Token} (h : Blames r us) (hus : us <:+ ts) :
    Blames r ts :=
  fun e he hfault => (h e he hfault).of_suffix hus

theorem Blames.bind {α β : Type} {x : Reading α} {f : α → Reading β} {ts : List Token} (hx : Blames x ts)
    (hf : ∀ a, x = .ok a → Blames (f a) ts) : Blames (x >>= f) ts := by
  intro e h
  obtain h | ⟨a, ha, h⟩ := Except.bind_eq_error_iff.mp h
  · exact hx e h
  · exact hf a ha e h

theorem noParen_expectOperand (op : Operator) (place : Nat) (ts : List Token) :
    NoParen (expectOperand op place ts) := by
  cases ts with
  | nil => exact .error (by simp)
  | cons t us =>
    rw [expectOperand]
    split
    · exact .error (by simp)
    · exact .ok _

/-- A token at which lines end without a closing parenthesis can follow no command. -/
theorem notJoining {t : Token} (hgo : Part.goesOn t (.lines false) = false)
    (hclose : t.isOp .closeParen = false) : t.isOperator = false ∨ t.isOp .openParen = true := by
  obtain ⟨lexeme, start, stop, leading⟩ := t
  cases lexeme with
  | word text quoted => exact .inl rfl
  | redirect sign => exact .inl rfl
  | operator op =>
    cases op with
    | openParen => exact .inr rfl
    | closeParen => cases hclose
    | _ => cases hgo

section

variable {depth : Nat} {command : CommandReader} (hsound : Sound true depth command)
  (hblames : ∀ inBlock ts, Blames (bare (command inBlock ts)) ts) (inBlock : Bool)

include hsound hblames

theorem pipelineFrom_blames (left : Command) (ts : List Token) :
    Blames (bare (pipelineFrom command inBlock left ts)) ts := by
  obtain ⟨len, hlen⟩ : ∃ len, ts.length = len := ⟨_, rfl⟩
  induction len using Nat.strongRecOn generalizing left ts with
  | _ len ih =>
    cases ts with
    | nil =>
      rw [pipelineFrom_nil]
      exact .ok _ _
    | cons t us =>
      rw [pipelineFrom_cons]
      split
      · refine Blames.bind ((noParen_expectOperand _ _ us).blames _) fun _ _ => ?_
        refine Blames.of_suffix ?_ (List.suffix_cons t us)
        refine Blames.bind (hblames inBlock us) ?_
        rintro ⟨right, rest⟩ hright
        have hle := of_bare hright
        exact (ih rest.length (by simp at hlen; omega) _ rest rfl).of_suffix
          (hsound inBlock us right rest (.inl rfl) hright).suffix
      · exact .ok _ _

theorem pipeline_blames (ts : List Token) : Blames (bare (pipeline command inBlock ts)) ts := by
  rw [pipeline_eq]
  refine Blames.bind (hblames inBlock ts) ?_
  rintro ⟨left, rest⟩ hleft
  exact (pipelineFrom_blames hsound hblames inBlock left rest).of_suffix
    (hsound inBlock ts left rest (.inl rfl) hleft).suffix

theorem chainFrom_blames (left : Command) (ts : List Token) :
    Blames (bare (chainFrom command inBlock left ts)) ts := by
  obtain ⟨len, hlen⟩ : ∃ len, ts.length = len := ⟨_, rfl⟩
  induction len using Nat.strongRecOn generalizing left ts with
  | _ len ih =>
    cases ts with
    | nil =>
      rw [chainFrom_nil]
      exact .ok _ _
    | cons t us =>
      rw [chainFrom_cons]
      split
      · refine Blames.bind ((noParen_expectOperand _ _ us).blames _) fun _ _ => ?_
        refine Blames.of_suffix ?_ (List.suffix_cons t us)
        refine Blames.bind (pipeline_blames hsound hblames inBlock us) ?_
        rintro ⟨right, rest⟩ hright
        have hle := of_bare hright
        exact (ih rest.length (by simp at hlen; omega) _ rest rfl).of_suffix
          (pipeline_sound hsound (.inl rfl) hright).suffix
      · exact .ok _ _

theorem chain_blames (ts : List Token) : Blames (bare (chain command inBlock ts)) ts := by
  rw [chain_eq]
  refine Blames.bind (pipeline_blames hsound hblames inBlock ts) ?_
  rintro ⟨left, rest⟩ hleft
  exact (chainFrom_blames hsound hblames inBlock left rest).of_suffix
    (pipeline_sound hsound (.inl rfl) hleft).suffix

theorem sequenceFrom_blames (oneLine : Bool) (prev : Option Command) (ts : List Token) :
    Blames (bare (sequenceFrom command inBlock oneLine prev ts)) ts := by
  obtain ⟨len, hlen⟩ : ∃ len, ts.length = len := ⟨_, rfl⟩
  induction len using Nat.strongRecOn generalizing prev ts with
  | _ len ih =>
    obtain ⟨breaks, hbreaks, -⟩ := itemStart_split oneLine ts
    rw [sequenceFrom_eq]
    generalize itemStart oneLine ts = start at hbreaks
    subst hbreaks
    refine Blames.of_suffix ?_ (List.suffix_append breaks start)
    cases start with
    | nil => exact .ok _ _
    | cons t us =>
      dsimp only
      split
      · exact .ok _ _
      · split
        · exact (NoParen.error (by simp)).blames _
        · refine Blames.bind (chain_blames hsound hblames inBlock (t :: us)) ?_
          rintro ⟨item, rest⟩ hitem
          have hle := of_bare hitem
          refine Blames.of_suffix ?_ (chain_sound hsound (.inl rfl) hitem).suffix
          cases rest with
          | nil => exact .ok _ _
          | cons sign rest =>
            rw [afterItem]
            split
            · refine (ih rest.length ?_ _ rest rfl).of_suffix (List.suffix_cons sign rest)
              simp at hlen hle
              omega
            · exact .ok _ _

/-- A block whose end is not found stays open, or what follows the sequence in it is no end. -/
theorem block_blames {t : Token} (hopen : t.isOp .openParen = true) (ts : List Token) :
    Blames (bare (block command t.start ts)) (t :: ts) := by
  rw [block_eq]
  refine Blames.bind ((sequenceFrom_blames hsound hblames true false none ts).of_suffix
    (List.suffix_cons t ts)) ?_
  rintro ⟨body, rest⟩ hbody
  obtain ⟨c, -, run, n, rfl, hspells, hstop⟩ | ⟨-, breaks, rfl, hbreaks, hend⟩ :=
    sequence_sound hsound (.inl rfl) hbody
  · have hrun := hspells.rise_nonneg
    cases rest with
    | nil =>
      rintro e he -
      cases he
      refine .inl ⟨_, List.suffix_refl _, ?_⟩
      rw [List.append_nil, rise_cons, tokenRise_open hopen]
      omega
    | cons u us =>
      dsimp only
      split
      · exact (NoParen.bind (noParen_redirectionsFrom us) fun _ _ => .ok _).blames _
      · rename_i hclose
        rintro e he -
        cases he
        refine .inr ⟨[], t, run, u, us, rfl, hopen, rfl, ⟨depth, n, c, hspells⟩, ?_⟩
        exact notJoining (hstop u us rfl).1 (Bool.eq_false_iff.mpr hclose)
  · cases rest with
    | nil =>
      rintro e he -
      cases he
      refine .inl ⟨_, List.suffix_refl _, ?_⟩
      rw [List.append_nil, rise_cons, tokenRise_open hopen, hbreaks.rise_eq]
      decide
    | cons u us =>
      have hclose : u.isOp .closeParen = true := by simpa [endsSequence] using hend u us rfl
      dsimp only
      rw [if_pos hclose]
      exact (NoParen.bind (noParen_redirectionsFrom us) fun _ _ => .ok _).blames _

theorem branch_blames (lineEnd : Nat) (ts : List Token) : Blames (branch lineEnd command inBlock ts) ts := by
  intro e h hfault
  obtain ⟨t, us, rfl, hopen, hblock⟩ | hlines | hmissing := branch_error h
  · exact block_blames hsound hblames hopen us e hblock hfault
  · exact sequenceFrom_blames hsound hblames inBlock true none ts e hlines hfault
  · cases hmissing.symm.trans hfault

theorem conditional_blames (lineEnd : Nat) (ts : List Token) :
    Blames (bare (conditional lineEnd command inBlock ts)) ts := by
  intro e h hfault
  obtain hother | ⟨asked, us, hhead, hbranch | ⟨body, after, word, more, hbody, hword, hbranch⟩⟩ :=
    conditional_error h
  · cases hother hfault
  · exact (branch_blames hsound hblames inBlock lineEnd us e hbranch hfault).of_suffix (ifHead_ok hhead).suffix
  · have hmore : more.val <:+ us :=
      (passes_word? hword).suffix.trans (branch_sound hsound (.inl rfl) hbody).1.suffix
    exact (branch_blames hsound hblames inBlock lineEnd more.val e hbranch hfault).of_suffix
      (hmore.trans (ifHead_ok hhead).suffix)

theorem loop_blames (lineEnd : Nat) (ts : List Token) : Blames (bare (loop lineEnd command inBlock ts)) ts := by
  intro e h hfault
  obtain hhead | ⟨head, us, hhead, hbranch⟩ := loop_error h
  · exact .inl (loopHead_error hhead hfault)
  · obtain ⟨hlt, hread⟩ := bare_eq_ok.mp hhead
    exact (branch_blames hsound hblames inBlock lineEnd us e hbranch hfault).of_suffix (loopHead_ok hread).suffix

theorem commandWith_blames (lineEnd : Nat) (ts : List Token) :
    Blames (bare (commandWith lineEnd command inBlock ts)) ts := by
  cases ts with
  | nil => exact (NoParen.error (by simp)).blames _
  | cons t us =>
    cases hopen : t.isOp .openParen with
    | true =>
      rw [commandWith_block hopen]
      exact block_blames hsound hblames hopen us
    | false =>
      by_cases hform : StartsForm (t :: us)
      · obtain hword | hword | hword := hform
        · rw [commandWith_if hopen hword]
          exact conditional_blames hsound hblames inBlock lineEnd (t :: us)
        · rw [commandWith_for hopen hword]
          exact loop_blames hsound hblames inBlock lineEnd (t :: us)
        · rw [commandWith_rem hopen hword]
          exact .ok _ _
      · cases hop : t.isOperator with
        | true =>
          rw [commandWith_operator hop hopen]
          exact (NoParen.error (by simp)).blames _
        | false =>
          rw [commandWith_simple hopen hform, simple_eq_simpleFrom hop]
          exact (NoParen.bind (noParen_simpleFrom _ _) fun _ _ => .ok _).blames _

end

theorem commandReader_blames (lineEnd depth : Nat) (inBlock : Bool) (ts : List Token) :
    Blames (bare (commandReader lineEnd depth inBlock ts)) ts := by
  induction depth generalizing inBlock ts with
  | zero => exact (NoParen.error (by simp)).blames _
  | succ depth ih => exact commandWith_blames (commandReader_sound true lineEnd depth) ih inBlock lineEnd ts

/-- **Why a line lacks a closing parenthesis.** -/
theorem missing_of_ofTokens? {ts : List Token} {o : Nat} (h : Command.ofTokens? ts = .error ⟨.unclosedParen, o⟩) :
    Missing o ts := by
  rw [ofTokens?_eq] at h
  have hblames : Blames (bare (sequenceFrom (commandReader (lineEnd ts) maxDepth) false false none ts)) ts :=
    sequenceFrom_blames (commandReader_sound true _ maxDepth) (commandReader_blames _ maxDepth) false false none ts
  obtain hread | ⟨⟨found, rest⟩, -, hrest⟩ := Except.bind_eq_error_iff.mp h
  · exact hblames _ hread rfl
  · cases rest with
    | nil => cases hrest
    | cons t us => cases hrest

end BatchShell.Parser
