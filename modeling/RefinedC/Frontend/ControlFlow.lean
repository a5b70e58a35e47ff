import RefinedC.Frontend.BlockCode
import RefinedC.Frontend.Locals
import RefinedC.Frontend.Lp64

/-!
Control flow of translated function bodies.

Owns: the simulation between C's structured semantics of a function body and its
emitted blocks, and the theorem that both perform the same actions.
-/

namespace RefinedC.Frontend

open Library Library.EventSystem

/-! ## Occurrence of targets -/

def Target.Occurs (labels : List String) (cases : List Int) (default : Bool) : Target → Prop
  | .label l => l ∈ labels
  | .case i => i ∈ cases
  | .default => default = true

mutual

private theorem seek_isSome (target : Target) : (s : Stmt) → (ss : List Stmt) → (k : Cont) →
    ((seek target s ss k).isSome ↔ target.Occurs (labelsOf s) (casesOf s) (hasDefault s))
  | .block _ inner, ss, k => by
      rw [seek, labelsOf, casesOf, hasDefault]
      exact seekList_isSome target inner (.seq ss k)
  | .ifS _ s1 s2, ss, k => by
      rw [seek, Option.isSome_or, Bool.or_eq_true, seek_isSome target s1, seek_isSome target s2]
      cases target <;> simp [Target.Occurs, labelsOf, casesOf, hasDefault]
  | .whileS e s, ss, k => by
      rw [seek, labelsOf, casesOf, hasDefault]
      exact seek_isSome target s [] _
  | .doS s e, ss, k => by
      rw [seek, labelsOf, casesOf, hasDefault]
      exact seek_isSome target s [] _
  | .switch _ s, ss, k => by
      have body := seek_isSome target s [] (.switchK (.seq ss k))
      cases target <;>
        simp_all [seek, Target.inSwitch, Target.Occurs, labelsOf, casesOf, hasDefault]
  | .caseS i s, ss, k => by
      have body := seek_isSome target s ss k
      cases target with
      | case j => by_cases same : j = i <;> simp_all [seek, Target.Occurs, casesOf]
      | _ => simp_all [seek, Target.Occurs, labelsOf, hasDefault]
  | .default s, ss, k => by
      have body := seek_isSome target s ss k
      cases target <;> simp_all [seek, Target.Occurs, labelsOf, casesOf, hasDefault]
  | .label l s, ss, k => by
      have body := seek_isSome target s ss k
      cases target with
      | label l' =>
          by_cases same : l' = symToStr l <;> simp_all [seek, Target.Occurs, labelsOf]
      | _ => simp_all [seek, Target.Occurs, casesOf, hasDefault]
  | .skip, _, _ | .expr _, _, _ | .breakS, _, _ | .continueS, _, _ | .returnVoid, _, _
  | .returnS _, _, _ | .goto _, _, _ | .declaration _, _, _ | .caseRangeGNU _ _ _, _, _
  | .par _, _, _ | .regStore _ _, _, _ | .marker _, _, _ => by
      cases target <;> simp [seek, Target.Occurs, labelsOf, casesOf, hasDefault]

private theorem seekList_isSome (target : Target) : (ss : List Stmt) → (k : Cont) →
    ((seekList target ss k).isSome ↔
      target.Occurs (labelsOfList ss) (casesOfList ss) (hasDefaultList ss))
  | [], k => by
      cases target <;> simp [seekList, Target.Occurs, labelsOfList, casesOfList, hasDefaultList]
  | s :: ss, k => by
      rw [seekList, Option.isSome_or, Bool.or_eq_true, seek_isSome target s,
        seekList_isSome target ss]
      cases target <;> simp [Target.Occurs, labelsOfList, casesOfList, hasDefaultList]

end

/-- A target of the rest is found there when it does not occur before. -/
theorem seekList_append_of_none {target : Target} {ss ss' : List Stmt} {k k' : Cont}
    (absent : seekList target ss k' = none) :
    seekList target (ss ++ ss') k = seekList target ss' k := by
  induction ss with
  | nil => rfl
  | cons s ss inductionHypothesis =>
      rw [seekList, Option.or_eq_none_iff] at absent
      have notHere : seek target s (ss ++ ss') k = none := by
        rw [← Option.not_isSome_iff_eq_none, seek_isSome, ← seek_isSome target s ss k',
          Option.not_isSome_iff_eq_none]
        exact absent.1
      rw [List.cons_append, seekList, notHere, Option.none_or]
      exact inductionHypothesis absent.2

/-! ## Related configurations -/

/-- `Follows P x k rest`: a list that is left by the exits `x` and whose last
statements are `rest` is followed by the continuation `k`, where `rest` itself
comes from `k`. -/
inductive Follows (P : Emitted) : Exits → Cont → List Stmt → Prop where
  | seq {x k ss rest} : Follows P x k rest → Follows P x (.seq ss k) (ss ++ rest)
  | stop {e} : EventMatches P.ctx P.retTy P.declared (.ret P.fallOff) (.ret e) →
      Follows P ⟨none, none, .ret e⟩ .stop []
  | join {table x k rest idCont tc} : Follows P x k rest → Code P table x rest tc →
      P.blocks idCont = some tc → Follows P { x with atEnd := .goto idCont } k []
  | whileK {table table' x k rest e s idCond idBody idCont tc tb ot e'} : Follows P x k rest →
      Code P table x rest tc → P.blocks idCont = some tc →
      Code P table' (.loop idCond idCont) [s] tb → P.blocks idBody = some tb →
      TranslatesTo P.ctx (fun ctx => translateCond ctx e) (ot, e') →
      P.blocks idCond = some (.ifS ot none e' (.goto idBody) (.goto idCont)) →
      Follows P (.loop idCond idCont) (.whileK e s k) []
  | doK {table table' x k rest e s idCond idBody idCont tc tb ot e'} : Follows P x k rest →
      Code P table x rest tc → P.blocks idCont = some tc →
      Code P table' (.loop idCond idCont) [s] tb → P.blocks idBody = some tb →
      TranslatesTo P.ctx (fun ctx => translateCond ctx e) (ot, e') →
      P.blocks idCond = some (.ifS ot none e' (.goto idBody) (.goto idCont)) →
      Follows P (.loop idCond idCont) (.doK s e k) []
  | switchK {table x k rest idCont tc} : Follows P x k rest → Code P table x rest tc →
      P.blocks idCont = some tc → Follows P (x.switch idCont) (.switchK k) []

/-- `t` implements the statements `ss` followed by `k`. -/
def Runs (P : Emitted) (ss : List Stmt) (k : Cont) (t : Coq.Stmt) : Prop :=
  ∃ table x rest, Follows P x k rest ∧ Code P table x (ss ++ rest) t

/-- A block that a target is entered by. -/
def Entry (table : Option SwitchTable) (id : String) : Target → Prop
  | .label l => l = id
  | .case i => ∃ table', table = some table' ∧ table'.branch i = some (.goto id)
  | .default => ∃ table', table = some table' ∧ table'.default = .goto id

/-- The block `id` implements the statements `ss` followed by `k`. -/
def Implements (P : Emitted) (id : String) (ss : List Stmt) (k : Cont) : Prop :=
  ∃ t, P.blocks id = some t ∧ Runs P ss k t

/-- The statements at a target are implemented by the block of the target. -/
def Enters (P : Emitted) (table : Option SwitchTable) (target : Target)
    (found : List Stmt × Cont) : Prop :=
  ∃ id, Entry table id target ∧ Implements P id found.1 found.2

section

variable {P : Emitted}

/-- A target is in the first statement or in the others. -/
theorem seekList_of_cons {target : Target} {s : Stmt} {stmts ss rest : List Stmt} {k : Cont}
    {found : List Stmt × Cont} (split : s :: stmts = ss ++ rest)
    (isFound : seekList target ss k = some found) :
    ∃ ss', stmts = ss' ++ rest ∧ (seek target s ss' k = some found ∨
      seek target s ss' k = none ∧ seekList target ss' k = some found) := by
  cases ss with
  | nil => cases isFound
  | cons s' ss =>
      cases split
      rw [seekList] at isFound
      refine ⟨ss, rfl, ?_⟩
      cases here : seek target s ss k with
      | some found' =>
          rw [here, Option.some_or] at isFound
          exact .inl isFound
      | none =>
          rw [here, Option.none_or] at isFound
          exact .inr ⟨rfl, isFound⟩

private theorem seekList_of_here {target : Target} {s : Stmt} {ss : List Stmt} {k : Cont}
    {found : List Stmt × Cont} (here : seek target s ss k = some found) :
    seekList target (s :: ss) k = some found := by
  rw [seekList, here, Option.some_or]

private theorem seekList_of_later {target : Target} {s : Stmt} {ss : List Stmt} {k : Cont}
    {found : List Stmt × Cont} (absent : seek target s ss k = none)
    (later : seekList target ss k = some found) : seekList target (s :: ss) k = some found := by
  rw [seekList, absent, Option.none_or]
  exact later

/-- Every target in implemented statements is entered by its block. -/
theorem Code.enters {table : Option SwitchTable} {x : Exits} {stmts ss rest : List Stmt}
    {t : Coq.Stmt} {k : Cont} {target : Target} {found : List Stmt × Cont}
    (code : Code P table x stmts t) (split : stmts = ss ++ rest) (follows : Follows P x k rest)
    (isFound : seekList target ss k = some found) : Enters P table target found := by
  -- on the derivation: `seek` goes into a statement as the rule for it does
  induction code generalizing ss rest k with
  | nil =>
      obtain ⟨rfl, -⟩ := List.append_eq_nil_iff.mp split.symm
      cases isFound
  | block code inductionHypothesis =>
      obtain ⟨ss, rfl, here | ⟨absent, later⟩⟩ := seekList_of_cons split isFound
      · rw [seek] at here
        exact inductionHypothesis rfl (.seq follows) here
      · rw [seek] at absent
        rw [← seekList_append_of_none absent] at later
        exact inductionHypothesis (List.append_assoc _ _ _).symm follows later
  | goto _ _ inductionHypothesis | returnVoid _ inductionHypothesis
  | breakS _ _ inductionHypothesis | continueS _ _ inductionHypothesis
  | returnS _ _ inductionHypothesis | skip _ inductionHypothesis
  | expr _ _ inductionHypothesis | declNil _ inductionHypothesis =>
      obtain ⟨ss, rfl, here | ⟨-, later⟩⟩ := seekList_of_cons split isFound
      · cases here
      · exact inductionHypothesis rfl follows later
  | ifLast _ _ _ _ _ hypothesis1 hypothesis2 =>
      obtain ⟨ss, split', here | ⟨-, later⟩⟩ := seekList_of_cons split isFound
      · obtain ⟨rfl, rfl⟩ := List.append_eq_nil_iff.mp split'.symm
        rw [seek, Option.or_eq_some_iff] at here
        rcases here with inThen | ⟨-, inElse⟩
        · exact hypothesis1 rfl (.seq follows) (seekList_of_here inThen)
        · exact hypothesis2 rfl (.seq follows) (seekList_of_here inElse)
      · obtain ⟨rfl, -⟩ := List.append_eq_nil_iff.mp split'.symm
        cases later
  | ifCont cont idCont _ _ _ _ _ hypothesis hypothesis1 hypothesis2 =>
      obtain ⟨ss, rfl, here | ⟨-, later⟩⟩ := seekList_of_cons split isFound
      · have joined := Follows.join (.seq follows) cont idCont
        rw [seek, Option.or_eq_some_iff] at here
        rcases here with inThen | ⟨-, inElse⟩
        · exact hypothesis1 rfl joined (seekList_of_here inThen)
        · exact hypothesis2 rfl joined (seekList_of_here inElse)
      · exact hypothesis rfl follows later
  | whileS cont idCont body idBody translated idCond hypothesis hypothesisBody =>
      obtain ⟨ss, rfl, here | ⟨-, later⟩⟩ := seekList_of_cons split isFound
      · rw [seek] at here
        exact hypothesisBody rfl (.whileK (.seq follows) cont idCont body idBody translated idCond)
          (seekList_of_here here)
      · exact hypothesis rfl follows later
  | doS cont idCont body idBody translated idCond hypothesis hypothesisBody =>
      obtain ⟨ss, rfl, here | ⟨-, later⟩⟩ := seekList_of_cons split isFound
      · rw [seek] at here
        exact hypothesisBody rfl (.doK (.seq follows) cont idCont body idBody translated idCond)
          (seekList_of_here here)
      · exact hypothesis rfl follows later
  | switch cont idCont _ _ _ _ _ hypothesis hypothesisBody =>
      obtain ⟨ss, rfl, here | ⟨-, later⟩⟩ := seekList_of_cons split isFound
      · cases target with
        | label l =>
            have entered := hypothesisBody rfl (.switchK (.seq follows) cont idCont)
              (seekList_of_here here)
            exact entered
        | case i => cases here
        | default => cases here
      · exact hypothesis rfl follows later
  | @caseS table x i s stmts id t code idCase branch inductionHypothesis =>
      obtain ⟨ss, rfl, here | ⟨absent, later⟩⟩ := seekList_of_cons split isFound
      · rw [seek] at here
        split at here
        · rename_i isCase
          cases here
          exact ⟨id, isCase ▸ ⟨table, rfl, branch⟩, t, idCase, _, x, rest, follows, code⟩
        · exact inductionHypothesis rfl follows (seekList_of_here here)
      · rw [seek] at absent
        split at absent
        · cases absent
        · exact inductionHypothesis rfl follows (seekList_of_later absent later)
  | @default table x s stmts id t code idCase isDefault inductionHypothesis =>
      obtain ⟨ss, rfl, here | ⟨absent, later⟩⟩ := seekList_of_cons split isFound
      · rw [seek] at here
        split at here
        · rename_i isTarget
          cases here
          exact ⟨id, isTarget ▸ ⟨table, rfl, isDefault⟩, t, idCase, _, x,
            rest, follows, code⟩
        · exact inductionHypothesis rfl follows (seekList_of_here here)
      · rw [seek] at absent
        split at absent
        · cases absent
        · exact inductionHypothesis rfl follows (seekList_of_later absent later)
  | @label table x l s stmts t code idLabel inductionHypothesis =>
      obtain ⟨ss, rfl, here | ⟨absent, later⟩⟩ := seekList_of_cons split isFound
      · rw [seek] at here
        split at here
        · rename_i isTarget
          cases here
          exact ⟨symToStr l, isTarget ▸ rfl, t, idLabel, table, x, rest, follows, code⟩
        · exact inductionHypothesis rfl follows (seekList_of_here here)
      · rw [seek] at absent
        split at absent
        · cases absent
        · exact inductionHypothesis rfl follows (seekList_of_later absent later)
  | declNone _ inductionHypothesis | declSome _ _ _ inductionHypothesis =>
      obtain ⟨ss, rfl, here | ⟨-, later⟩⟩ := seekList_of_cons split isFound
      · cases here
      · exact inductionHypothesis rfl follows (seekList_of_later rfl later)

/-! ## Jumps out of statements -/

theorem Follows.breakTo {x : Exits} {k : Cont} {rest : List Stmt} {t : Coq.Stmt}
    (follows : Follows P x k rest) (atBreak : x.atBreak = some t) :
    ∃ k' id, k.breakTo = some k' ∧ t = .goto id ∧ Implements P id [] k' := by
  induction follows with
  | seq _ inductionHypothesis => exact inductionHypothesis atBreak
  | stop => cases atBreak
  | join _ _ _ inductionHypothesis => exact inductionHypothesis atBreak
  | whileK follows cont idCont | doK follows cont idCont | switchK follows cont idCont =>
      cases atBreak
      exact ⟨_, _, rfl, rfl, _, idCont, _, _, _, follows, cont⟩

/-- Bounds the steps that only rearrange statements. -/
def Cont.rank : Cont → Nat
  | .seq ss k => 2 * Stmt.sizes ss + 1 + k.rank
  | _ => 0

def Config.rank : Config → Nat
  | .run ss k => 2 * Stmt.sizes ss + k.rank
  | .done => 0

theorem Follows.continueTo {x : Exits} {k : Cont} {rest : List Stmt} {t : Coq.Stmt}
    (follows : Follows P x k rest) (atContinue : x.atContinue = some t) :
    ∃ k', k.continueTo = some k' ∧ k'.rank = 0 ∧ Runs P [] k' t := by
  induction follows with
  | seq _ inductionHypothesis => exact inductionHypothesis atContinue
  | stop => cases atContinue
  | join _ _ _ inductionHypothesis => exact inductionHypothesis atContinue
  | switchK _ _ _ inductionHypothesis => exact inductionHypothesis atContinue
  | whileK follows cont idCont body idBody translated idCond =>
      cases atContinue
      exact ⟨_, rfl, rfl, none, _, [],
        .whileK follows cont idCont body idBody translated idCond, .nil⟩
  | doK follows cont idCont body idBody translated idCond =>
      cases atContinue
      exact ⟨_, rfl, rfl, none, _, [],
        .doK follows cont idCont body idBody translated idCond, .nil⟩

/-- `t` leads to `t'` by gotos. -/
inductive Jumps (blocks : Blocks) : Coq.Stmt → Coq.Stmt → Prop where
  | refl {t} : Jumps blocks t t
  | goto {id t t'} : blocks id = some t → Jumps blocks t t' → Jumps blocks (.goto id) t'

theorem Jumps.trans {blocks : Blocks} {t1 t2 t3 : Coq.Stmt} (first : Jumps blocks t1 t2)
    (second : Jumps blocks t2 t3) : Jumps blocks t1 t3 := by
  induction first with
  | refl => exact second
  | goto found _ inductionHypothesis => exact .goto found (inductionHypothesis second)

theorem Jumps.silent {blocks : Blocks} {t t' : Coq.Stmt} (jumps : Jumps blocks t t')
    (oracle : Oracle) (time : Nat) :
    ∃ n, Silent (blockSystem blocks oracle) time n (.run t) (.run t') := by
  induction jumps with
  | refl => exact ⟨0, .refl _⟩
  | goto found _ inductionHypothesis =>
      obtain ⟨n, silent⟩ := inductionHypothesis
      refine ⟨n + 1, .step ?_ silent⟩
      simp only [blockSystem, stepBlock, found, Option.map_some]

/-- The emitted statement implements the configuration, after some gotos. -/
inductive Related (P : Emitted) : Config → BlockConfig → Prop where
  | run {ss k t t'} : Jumps P.blocks t t' → Runs P ss k t' → Related P (.run ss k) (.run t)
  | done : Related P .done .done

theorem Implements.related {id : String} {ss : List Stmt} {k : Cont}
    (reaches : Implements P id ss k) :
    Related P (.run ss k) (.run (.goto id)) := by
  obtain ⟨t, found, runs⟩ := reaches
  exact .run (.goto found .refl) runs

/-! ## Steps -/

/-- The next step of the configuration `c` is followed by the emitted statement
`t`, or it only rearranges statements. -/
inductive Answered (P : Emitted) (oracle : Oracle) (time : Nat) (c : Config) (t : Coq.Stmt) :
    Prop where
  | rearranged {c' : Config} :
      (stmtSystem P.body P.fallOff oracle).step time c = some (c', none) →
      c'.rank < c.rank → Related P c' (.run t) → Answered P oracle time c t
  | followed {c' : Config} {event : Option Event} {t' : Coq.Stmt} {d : BlockConfig}
      {event' : Option BlockEvent} :
      (stmtSystem P.body P.fallOff oracle).step time c = some (c', event) →
      Jumps P.blocks t t' → stepBlock P.blocks oracle time t' = some (d, event') →
      SameEvent (EventMatches P.ctx P.retTy P.declared) event event' → Related P c' d →
      Answered P oracle time c t

variable {oracle : Oracle} {time : Nat} {c : Config}

private theorem Answered.afterJumps {t t' : Coq.Stmt} (answered : Answered P oracle time c t')
    (jumps : Jumps P.blocks t t') : Answered P oracle time c t := by
  cases answered with
  | rearranged step smaller related =>
      refine .rearranged step smaller ?_
      cases related with
      | run jumps' runs => exact .run (jumps.trans jumps') runs
  | followed step jumps' step' same related =>
      exact .followed step (jumps.trans jumps') step' same related

theorem Answered.cond {t : Coq.Stmt} {e : Expr} {ss1 ss2 : List Stmt} {k1 k2 : Cont}
    {ot : Coq.OpType} {idCont : Option String} {e' : Coq.Expr} {id1 id2 : String}
    (step : (stmtSystem P.body P.fallOff oracle).step time c =
      if oracle.cond time then some (.run ss1 k1, some (.cond e true))
      else some (.run ss2 k2, some (.cond e false)))
    (jumps : Jumps P.blocks t (.ifS ot idCont e' (.goto id1) (.goto id2)))
    (translated : TranslatesTo P.ctx (fun ctx => translateCond ctx e) (ot, e'))
    (branch1 : Implements P id1 ss1 k1) (branch2 : Implements P id2 ss2 k2) :
    Answered P oracle time c t := by
  cases outcome : oracle.cond time with
  | true =>
      rw [outcome, if_pos rfl] at step
      refine .followed step jumps ?_ (.some (.cond translated)) branch1.related
      rw [stepBlock, outcome, if_pos rfl]
  | false =>
      rw [outcome, if_neg Bool.false_ne_true] at step
      refine .followed step jumps ?_ (.some (.cond translated)) branch2.related
      rw [stepBlock, outcome, if_neg Bool.false_ne_true]

/-- The end of a statement list. -/
theorem Follows.answered {table : Option SwitchTable} {x : Exits} {k : Cont} {rest : List Stmt}
    {t : Coq.Stmt} (follows : Follows P x k rest) (code : Code P table x rest t) :
    Answered P oracle time (.run [] k) t := by
  induction follows generalizing table t with
  | seq follows _ =>
      refine .rearranged rfl ?_ (.run .refl ⟨table, _, _, follows, code⟩)
      simp [Config.rank, Cont.rank, Stmt.sizes]
  | stop matches_ =>
      cases code
      exact .followed rfl .refl rfl (.some matches_) .done
  | join follows cont idCont inductionHypothesis =>
      cases code
      exact (inductionHypothesis cont).afterJumps (.goto idCont .refl)
  | whileK follows cont idCont body idBody translated idCond =>
      cases code
      exact .cond rfl (.goto idCond .refl) translated
        ⟨_, idBody, _, _, [], .whileK follows cont idCont body idBody translated idCond, body⟩
        ⟨_, idCont, _, _, _, follows, cont⟩
  | doK follows cont idCont body idBody translated idCond =>
      cases code
      exact .cond rfl (.goto idCond .refl) translated
        ⟨_, idBody, _, _, [], .doK follows cont idCont body idBody translated idCond, body⟩
        ⟨_, idCont, _, _, _, follows, cont⟩
  | switchK follows cont idCont =>
      cases code
      refine .followed rfl .refl ?_ .none (.run .refl ⟨_, _, _, follows, cont⟩)
      simp only [Exits.switch, stepBlock, idCont, Option.map_some]

/-- A switch goes to the block of its case, of its default or of what follows it. -/
theorem Code.switchTo {table : SwitchTable} {x : Exits} {s : Stmt} {ss rest : List Stmt}
    {k : Cont} {idCont : String} {outer : Option SwitchTable} {tc tb : Coq.Stmt}
    (follows : Follows P x k rest) (cont : Code P outer x (ss ++ rest) tc)
    (foundCont : P.blocks idCont = some tc) (body : Code P (some table) (x.switch idCont) [s] tb)
    (others : ∀ n, n ∉ casesOf s → table.branch n = some table.default)
    (noDefault : hasDefault s = false → table.default = .goto idCont) (n : Int) :
    ∃ id, table.branch n = some (.goto id) ∧
      Implements P id (switchTo n s ss k).1 (switchTo n s ss k).2 := by
  have inner : Follows P (x.switch idCont) (.switchK (.seq ss k)) [] :=
    .switchK (.seq follows) cont foundCont
  unfold Frontend.switchTo
  split
  · rename_i found isFound
    obtain ⟨id, ⟨table', same, branch⟩, reaches⟩ :=
      body.enters rfl inner (seekList_of_here isFound)
    cases same
    exact ⟨id, branch, reaches⟩
  · rename_i noCase
    have absent : n ∉ casesOf s := by
      intro member
      have isSome := (seek_isSome (.case n) s [] (.switchK (.seq ss k))).mpr member
      rw [noCase] at isSome
      cases isSome
    rw [others n absent]
    cases isDefault : seek .default s [] (.switchK (.seq ss k)) with
    | some found =>
        obtain ⟨id, ⟨table', same, default⟩, reaches⟩ :=
          body.enters rfl inner (seekList_of_here isDefault)
        cases same
        exact ⟨id, congrArg some default, reaches⟩
    | none =>
        have noneThere : hasDefault s = false := by
          rw [← Bool.not_eq_true]
          intro isThere
          have isSome := (seek_isSome .default s [] (.switchK (.seq ss k))).mpr isThere
          rw [isDefault] at isSome
          cases isSome
        exact ⟨idCont, congrArg some (noDefault noneThere), tc, foundCont, outer, x, rest,
          follows, cont⟩

private theorem stepBlock_attach (head : Head) (t : Coq.Stmt) :
    stepBlock P.blocks oracle time (head.attach t) = some (.run t, some (.head head)) := by
  cases head <;> rfl

/-- The first statement of a list. -/
theorem Code.answered {table : Option SwitchTable} {x : Exits} {s : Stmt} {ss rest : List Stmt}
    {k : Cont} {t start : Coq.Stmt} (root : Runs P P.body .stop start)
    (follows : Follows P x k rest) (code : Code P table x (s :: (ss ++ rest)) t) :
    Answered P oracle time (.run (s :: ss) k) t := by
  generalize tail : ss ++ rest = stmts at code
  cases code with
  | @block _ _ _ inner _ _ code =>
      subst tail
      refine .rearranged rfl ?_ (.run .refl ⟨table, x, _, .seq follows, code⟩)
      simp only [Config.rank, Cont.rank, Stmt.sizes, Stmt.size]
      omega
  | @goto _ _ l _ _ _ isLabel =>
      obtain ⟨tableRoot, xRoot, restRoot, followsRoot, codeRoot⟩ := root
      obtain ⟨found, isFound⟩ := Option.isSome_iff_exists.mp
        ((seekList_isSome (.label (symToStr l)) P.body .stop).mpr isLabel)
      obtain ⟨id, rfl, t, foundBlock, runs⟩ := codeRoot.enters rfl followsRoot isFound
      refine .followed ?_ .refl ?_ .none (.run .refl runs)
      · simp only [stmtSystem, stepStmt, isFound, silently, Option.map_some]
      · simp only [stepBlock, foundBlock, Option.map_some]
  | returnVoid => exact .followed rfl .refl rfl (.some .retVoid) .done
  | breakS _ atBreak =>
      obtain ⟨k', id, isBreak, rfl, t, found, runs⟩ := follows.breakTo atBreak
      refine .followed ?_ .refl ?_ .none (.run .refl runs)
      · simp only [stmtSystem, stepStmt, isBreak, silently, Option.map_some]
      · simp only [stepBlock, found, Option.map_some]
  | continueS _ atContinue =>
      obtain ⟨k', isContinue, rank, runs⟩ := follows.continueTo atContinue
      refine .rearranged ?_ ?_ (.run .refl runs)
      · simp only [stmtSystem, stepStmt, isContinue, silently, Option.map_some]
      · simp only [Config.rank, rank, Stmt.sizes, Stmt.size]
        omega
  | returnS _ translated => exact .followed rfl .refl rfl (.some (.ret translated)) .done
  | skip code =>
      subst tail
      refine .rearranged rfl ?_ (.run .refl ⟨table, x, rest, follows, code⟩)
      simp only [Config.rank, Stmt.sizes, Stmt.size]
      omega
  | expr code translated =>
      subst tail
      exact .followed rfl .refl (stepBlock_attach _ _) (.some (.exprStmt translated))
        (.run .refl ⟨table, x, rest, follows, code⟩)
  | ifLast code1 found1 code2 found2 translated =>
      obtain ⟨rfl, rfl⟩ := List.append_eq_nil_iff.mp tail
      exact .cond rfl .refl translated ⟨_, found1, table, x, [], .seq follows, code1⟩
        ⟨_, found2, table, x, [], .seq follows, code2⟩
  | ifCont cont foundCont code1 found1 code2 found2 translated =>
      subst tail
      have joined := Follows.join (.seq follows) cont foundCont
      exact .cond rfl .refl translated ⟨_, found1, table, _, [], joined, code1⟩
        ⟨_, found2, table, _, [], joined, code2⟩
  | whileS cont foundCont body foundBody translated foundCond =>
      subst tail
      exact .cond rfl (.goto foundCond .refl) translated
        ⟨_, foundBody, table, _, [],
          .whileK (.seq follows) cont foundCont body foundBody translated foundCond, body⟩
        ⟨_, foundCont, table, x, rest, follows, cont⟩
  | doS cont foundCont body foundBody translated foundCond =>
      subst tail
      refine .rearranged rfl ?_ (.run (.goto foundBody .refl) ⟨table, _, [],
        .doK (.seq follows) cont foundCont body foundBody translated foundCond, body⟩)
      simp only [Config.rank, Cont.rank, Stmt.sizes, Stmt.size]
      omega
  | switch cont foundCont isInt body others noDefault translated =>
      subst tail
      obtain ⟨id, branch, reaches⟩ := Code.switchTo follows cont foundCont body others noDefault
        (oracle.switch time)
      refine .followed rfl .refl ?_ (.some (.switch isInt translated)) reaches.related
      rw [stepBlock, branch, Option.map_some]
  | caseS code found _ | default code found _ | label code found =>
      subst tail
      refine .rearranged rfl ?_ (.run (.goto found .refl) ⟨_, x, rest, follows, code⟩)
      simp only [Config.rank, Stmt.sizes, Stmt.size]
      omega
  | declNil code =>
      subst tail
      refine .rearranged rfl ?_ (.run .refl ⟨table, x, rest, follows, code⟩)
      simp [Config.rank, Stmt.sizes, Stmt.size]
  | declNone code =>
      subst tail
      refine .rearranged rfl ?_ (.run .refl ⟨table, x, rest, follows, code⟩)
      simp [Config.rank, Stmt.sizes, Stmt.size]
  | declSome code declared translated =>
      subst tail
      exact .followed rfl .refl (stepBlock_attach _ _) (.some (.init declared translated))
        (.run .refl ⟨table, x, rest, follows, code⟩)

private theorem Runs.answered {ss : List Stmt} {k : Cont} {t start : Coq.Stmt}
    (runs : Runs P ss k t) (root : Runs P P.body .stop start) :
    Answered P oracle time (.run ss k) t := by
  obtain ⟨table, x, rest, follows, code⟩ := runs
  cases ss with
  | nil => exact follows.answered code
  | cons s ss => exact code.answered root follows

/-- C's semantics of the body is simulated by the emitted blocks. -/
theorem simulation {start : Coq.Stmt} (root : Runs P P.body .stop start) (oracle : Oracle) :
    Simulation (stmtSystem P.body P.fallOff oracle) (blockSystem P.blocks oracle)
      (EventMatches P.ctx P.retTy P.declared) (Related P) Config.rank where
  forward := by
    intro time c d c' event related step
    cases related with
    | done => cases step
    | run jumps runs =>
        have answered : Answered P oracle time _ _ := (runs.answered root).afterJumps jumps
        cases answered with
        | rearranged step' smaller related' =>
            cases step.symm.trans step'
            exact .inl ⟨rfl, smaller, related'⟩
        | followed step' jumps' next same related' =>
            cases step.symm.trans step'
            obtain ⟨n, silent⟩ := jumps'.silent oracle time
            exact .inr ⟨n, _, _, _, silent, next, same, related'⟩
  stuck := by
    intro time c d related stuck
    cases related with
    | done => rfl
    | run jumps runs =>
        have answered : Answered P oracle time _ _ := runs.answered root
        cases answered with
        | rearranged step => cases stuck.symm.trans step
        | followed step => cases stuck.symm.trans step

end

/-! ## Functions -/

/-- The initial stack returns the value of a function whose end is reached. -/
theorem kInit_follows (ctx : Ctx) (retTy : Option Coq.OpType) (isMain : Bool) :
    ∃ e, Stacked (kInit retTy isMain) ⟨none, none, .ret e⟩ ∧
      ∀ declared,
        EventMatches ctx retTy declared (.ret (fallOffValue retTy isMain)) (.ret e) := by
  have stacked (v : Coq.Value) :
      Stacked (kPushFinal (.ret (.val v)) []) ⟨none, none, .ret (.val v)⟩ :=
    ⟨fun found => (by cases found), fun found => (by cases found), rfl⟩
  by_cases isInt : retTy = some (.int (.i32 true))
  · subst isInt
    cases isMain with
    | true => exact ⟨_, stacked (.int "0" (.i32 true)), fun _ => .retZero⟩
    | false => exact ⟨_, stacked .void, fun _ => .retVoid⟩
  · have isVoid : kInit retTy isMain = kPushFinal (.ret (.val .void)) [] := by
      unfold kInit
      split
      · contradiction
      · rfl
    rw [isVoid, fallOffValue, if_neg (fun both => isInt both.2)]
    exact ⟨_, stacked .void, fun _ => .retVoid⟩

section

variable {ctx : Ctx} {name : String} {decl : FunDecl} {fd : FunctionDefinition} {fn : Coq.FuncDef}
  (run : FunctionRun ctx name decl fd fn)

/-- What a function run emits. -/
def FunctionRun.emitted : Emitted :=
  ⟨ctx, run.retTy, functionVars decl fd, run.stmts, fallOffValue run.retTy (name = "main"),
    fn.blockMap⟩

theorem FunctionRun.blocks {id : String} {s : Coq.Stmt}
    (found : run.final.blocks.lookup id = some s) : fn.blockMap id = some s := by
  rw [Coq.FuncDef.blockMap, run.isBlocks]
  exact found

theorem FunctionRun.initBlock : fn.blockMap fn.init = some run.body := by
  rw [run.isInit]
  obtain ⟨-, isFinal⟩ := addBlock_eq_ok.mp run.added
  apply run.blocks
  rw [← isFinal]
  exact List.lookup_cons_self

/-- The body is implemented by the initial block. -/
theorem FunctionRun.code (wellFormed : WellFormed (labelsOfList run.stmts) run.stmts) :
    ∃ e, Code run.emitted none ⟨none, none, .ret e⟩ run.stmts run.body ∧
      EventMatches ctx run.retTy (functionVars decl fd)
        (.ret (fallOffValue run.retTy (name = "main"))) (.ret e) := by
  obtain ⟨e, stacked, isMatch⟩ := kInit_follows ctx run.retTy (name = "main")
  refine ⟨e, run.translates.code ?_ wellFormed stacked, isMatch _⟩
  refine ⟨fun id s found => run.blocks ((addBlock_keeps run.added).blocks id s found),
    fun id v found => run.mem_functionVars found, ?_⟩
  obtain ⟨vars, isInitial⟩ := run.withVars_eq
  have switches := run.translates.grows.switches
  rw [isInitial] at switches
  exact switches.1

end

/-- A translated function performs the actions of its body. -/
theorem translateFunction_traces {ctx : Ctx} {name : String} {decl : FunDecl}
    {fd : FunctionDefinition} {fn : Coq.FuncDef} {bindings : List (Sym × CType)}
    {stmts : List Stmt} (translated : translateFunction ctx name decl fd = .ok fn)
    (isBody : fd.body = .block bindings stmts) (distinct : CasesDistinctList stmts)
    (gotos : ∀ l ∈ gotosOfList stmts, l ∈ labelsOfList stmts) :
    ∃ retTy, opTypeOpt ctx.impl decl.ret = .ok retTy ∧ ∀ oracle : Oracle,
      let source := (stmtSystem stmts (fallOffValue retTy (name = "main")) oracle).trace
        (.run stmts .stop)
      let target := (blockSystem fn.blockMap oracle).trace (.run (.goto fn.init))
      let Matches := List.Forall₂ (EventMatches ctx retTy (functionVars decl fd))
      (∀ n, ∃ m, Matches (source n) (target m)) ∧
        ∀ m, ∃ n, Matches (source n) (target m) := by
  obtain ⟨run⟩ := translateFunction_run translated
  cases isBody.symm.trans run.isBody
  refine ⟨run.retTy, run.isRet, fun oracle => ?_⟩
  obtain ⟨e, code, isMatch⟩ := run.code ⟨distinct, gotos⟩
  have root : Runs run.emitted run.stmts .stop run.body := by
    refine ⟨none, _, [], .stop isMatch, ?_⟩
    rw [List.append_nil]
    exact code
  have start : Implements run.emitted fn.init run.stmts .stop := ⟨run.body, run.initBlock, root⟩
  exact (simulation root oracle).traces start.related

/-- `x` as an rvalue of type `int`. -/
def readX : Expr :=
  .annotated (.rvalue (.integer (.signed .int)))
    (.rvalue (.annotated (.lvalue (.integer (.signed .int))) (.ident ⟨0, "x"⟩)))

/-- `while (x) switch (x) { case 1: if (x) break; case 2: continue; default: goto end; }
end: return x;` -/
def loopBody : List Stmt :=
  [.whileS readX (.switch readX (.block []
      [.caseS 1 (.ifS readX .breakS .skip), .caseS 2 .continueS, .default (.goto ⟨1, "end"⟩)])),
    .label ⟨1, "end"⟩ (.returnS readX)]

def loopDecl : FunDecl := ⟨.integer (.signed .int), [.integer (.signed .int)], []⟩

def loopDef : FunctionDefinition := ⟨[⟨0, "x"⟩], .block [] loopBody⟩

theorem loopBody_casesDistinct : CasesDistinctList loopBody := by
  simp [loopBody, CasesDistinctList, CasesDistinct, casesOf, casesOfList]

theorem loopBody_gotos : ∀ l ∈ gotosOfList loopBody, l ∈ labelsOfList loopBody := by
  simp [loopBody, gotosOfList, gotosOf, labelsOfList, labelsOf]

theorem loopDef_translated :
    ∃ fn, translateFunction (lp64Ctx [] []) "loop" loopDecl loopDef = .ok fn :=
  exists_ok_of_isOk (by decide +kernel)

theorem translateFunction_traces_loop :
    ∃ fn retTy, translateFunction (lp64Ctx [] []) "loop" loopDecl loopDef = .ok fn ∧
      ∀ oracle : Oracle,
      let source := (stmtSystem loopBody (fallOffValue retTy false) oracle).trace
        (.run loopBody .stop)
      let target := (blockSystem fn.blockMap oracle).trace (.run (.goto fn.init))
      let Matches := List.Forall₂ (EventMatches (lp64Ctx [] []) retTy
        [("x", .integer (.signed .int))])
      (∀ n, ∃ m, Matches (source n) (target m)) ∧
        ∀ m, ∃ n, Matches (source n) (target m) := by
  obtain ⟨fn, translated⟩ := loopDef_translated
  obtain ⟨retTy, -, traces⟩ :=
    translateFunction_traces translated rfl loopBody_casesDistinct loopBody_gotos
  exact ⟨fn, retTy, translated, traces⟩

end RefinedC.Frontend
