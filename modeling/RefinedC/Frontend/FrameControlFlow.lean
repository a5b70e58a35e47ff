import RefinedC.Caesium.FrameRun
import RefinedC.Frontend.EmittedProgram

/-!
Control flow of frames of emitted functions.

Source: `translate_block` of `frontend/ail_to_coq.ml`, `pp_stmt` and
`pp_function_def` of `frontend/coq_pp.ml`, and `stmt_step` of
`theories/caesium/lang.v`.

Owns: when an action of a frame is the denotation of an action of emitted blocks,
and the theorem that a frame of an emitted function performs, in every
interleaving with other threads, actions that the C statements of the function
perform in the same order.

Does not own: the values of expressions. Outcomes of conditions and of switch
expressions are the ones that the frame computed.
-/

namespace RefinedC.Frontend

open Library EventSystem

/-! ## Outcomes of a finite sequence of actions -/

/-- The oracle has the outcome of the action. -/
def BlockEvent.AgreesAt (oracle : Oracle) (time : Nat) : BlockEvent → Prop
  | .cond _ _ outcome => oracle.cond time = outcome
  | .switch _ _ outcome => oracle.switch time = outcome
  | .head _ | .ret _ => True

def Agrees (oracle : Oracle) (events : List BlockEvent) : Prop :=
  ∀ (time : Nat) (event : BlockEvent), events[time]? = some event → event.AgreesAt oracle time

def BlockEvent.condOutcome : BlockEvent → Bool
  | .cond _ _ outcome => outcome
  | _ => false

def BlockEvent.switchOutcome : BlockEvent → Int
  | .switch _ _ outcome => outcome
  | _ => 0

/-- The outcomes of the actions. -/
def recordedOracle (events : List BlockEvent) : Oracle where
  cond time := (events[time]?.map BlockEvent.condOutcome).getD false
  switch time := (events[time]?.map BlockEvent.switchOutcome).getD 0

private theorem recordedOracle_agrees (events : List BlockEvent) :
    Agrees (recordedOracle events) events := by
  intro time event found
  cases event with
  | cond ot e outcome => simp [BlockEvent.AgreesAt, recordedOracle, found, BlockEvent.condOutcome]
  | switch it e outcome =>
      simp [BlockEvent.AgreesAt, recordedOracle, found, BlockEvent.switchOutcome]
  | head h => trivial
  | ret e => trivial

theorem Agrees.before {oracle : Oracle} {events events' : List BlockEvent}
    (agrees : Agrees oracle (events ++ events')) : Agrees oracle events := by
  intro time event found
  have bound : time < events.length := (List.getElem?_eq_some_iff.mp found).1
  exact agrees time event (by rw [List.getElem?_append_left bound, found])

theorem Agrees.last {oracle : Oracle} {events : List BlockEvent} {event : BlockEvent}
    (agrees : Agrees oracle (events ++ [event])) : event.AgreesAt oracle events.length :=
  agrees _ _ (by simp)

section

variable {blocks : Blocks} {start d d' : BlockConfig} {events : List BlockEvent}

/-- The blocks perform the actions and are then at `d`, whenever an oracle has the
outcomes of the actions. -/
def BlockRun (blocks : Blocks) (start : BlockConfig) (events : List BlockEvent)
    (d : BlockConfig) : Prop :=
  ∃ n, ∀ oracle, Agrees oracle events →
    (blockSystem blocks oracle).exec n [] start = (events, d)

theorem BlockRun.refl (blocks : Blocks) (start : BlockConfig) : BlockRun blocks start [] start :=
  ⟨0, fun _ _ => rfl⟩

theorem BlockRun.step {event : Option BlockEvent} (reaches : BlockRun blocks start events d)
    (step : ∀ oracle, (∀ e ∈ event, e.AgreesAt oracle events.length) →
      (blockSystem blocks oracle).step events.length d = some (d', event)) :
    BlockRun blocks start (events ++ event.toList) d' := by
  obtain ⟨n, run⟩ := reaches
  refine ⟨n + 1, fun oracle agrees => exec_step (run oracle agrees.before) (step oracle ?_)⟩
  intro e isEvent
  obtain rfl : event = some e := isEvent
  exact agrees.last

theorem BlockRun.silent (reaches : BlockRun blocks start events d)
    (step : ∀ oracle, (blockSystem blocks oracle).step events.length d = some (d', none)) :
    BlockRun blocks start events d' := by
  have next : BlockRun blocks start (events ++ (none : Option BlockEvent).toList) d' :=
    reaches.step fun oracle _ => step oracle
  rwa [Option.toList_none, List.append_nil] at next

end

/-! ## Denotation of actions -/

/-- An action of a frame is the denotation of an action of the blocks, where the variables
of the function are replaced by their locations. -/
inductive EventDenotes (env : CodeEnv) (locs : List (Caesium.VarName × Caesium.Val)) :
    BlockEvent → Caesium.FrameEvent → Prop where
  | assign {atomic : Bool} {ot : Coq.OpType} {ot' : Caesium.OpType} {e1 e2 : Coq.Expr}
      {e1' e2' : Caesium.Expr} :
      denoteOpType env ot = .ok ot' → denoteExpr env e1 = .ok e1' →
        denoteExpr env e2 = .ok e2' →
      EventDenotes env locs (.head (.assign atomic ot e1 e2))
        (.assign (accessOrder atomic) ot' (Caesium.substL locs e1') (Caesium.substL locs e2'))
  /-- An assertion that holds. -/
  | assert {ot : Coq.OpType} {ot' : Caesium.OpType} {e : Coq.Expr} {e' : Caesium.Expr} :
      denoteOpType env ot = .ok ot' → denoteExpr env e = .ok e' →
      EventDenotes env locs (.head (.assert ot e)) (.cond ot' (Caesium.substL locs e') true)
  | exprS {e : Coq.Expr} {e' : Caesium.Expr} : denoteExpr env e = .ok e' →
      EventDenotes env locs (.head (.exprS e)) (.expr (Caesium.substL locs e'))
  | cond {ot : Coq.OpType} {ot' : Caesium.OpType} {e : Coq.Expr} {e' : Caesium.Expr}
      {outcome : Bool} : denoteOpType env ot = .ok ot' → denoteExpr env e = .ok e' →
      EventDenotes env locs (.cond ot e outcome) (.cond ot' (Caesium.substL locs e') outcome)
  | switch {it : Coq.IntType} {e : Coq.Expr} {e' : Caesium.Expr} {outcome : Int} :
      denoteExpr env e = .ok e' →
      EventDenotes env locs (.switch it e outcome)
        (.switch it.denote (Caesium.substL locs e') outcome)
  | ret {e : Coq.Expr} {e' : Caesium.Expr} : denoteExpr env e = .ok e' →
      EventDenotes env locs (.ret e) (.ret (Caesium.substL locs e'))

/-- The frame is at the denotation of the block statement. -/
inductive PosDenotes (env : CodeEnv) (locs : List (Caesium.VarName × Caesium.Val)) :
    BlockConfig → Caesium.FramePos → Prop where
  | run {t : Coq.Stmt} {s : Caesium.Stmt} : denoteStmt env t = .ok s →
      PosDenotes env locs (.run t) (.running (Caesium.substStmt locs s))
  | done : PosDenotes env locs .done .returned

/-- The code of the frame is the denotation of the blocks. -/
def CodeDenotes (env : CodeEnv) (locs : List (Caesium.VarName × Caesium.Val)) (blocks : Blocks)
    (code : PartialMap Caesium.Label Caesium.Stmt) : Prop :=
  ∀ b s, code b = some s → ∃ t s', blocks b = some t ∧ denoteStmt env t = .ok s' ∧
    s = Caesium.substStmt locs s'

private theorem getElem?_denoteStmts {env : CodeEnv} :
    ∀ {ts : List Coq.Stmt} {ss : List Caesium.Stmt}, denoteStmts env ts = .ok ss →
      ∀ {i : Nat} {s : Caesium.Stmt}, ss[i]? = some s →
        ∃ t, ts[i]? = some t ∧ denoteStmt env t = .ok s
  | [], ss, denoted, i, s, found => by
      cases denoted
      cases found
  | t :: ts, ss, denoted, i, s, found => by
      obtain ⟨s1, isHead, denoted⟩ := bind_eq_ok.mp denoted
      obtain ⟨ss1, isTail, denoted⟩ := bind_eq_ok.mp denoted
      cases denoted
      cases i with
      | zero =>
          cases found
          exact ⟨t, rfl, isHead⟩
      | succ i => exact getElem?_denoteStmts isTail found

private theorem getElem?_substStmts (locs : List (Caesium.VarName × Caesium.Val)) :
    ∀ (ss : List Caesium.Stmt) (i : Nat),
      (Caesium.substStmts locs ss)[i]? = (ss[i]?).map (Caesium.substStmt locs)
  | [], _ => rfl
  | _ :: _, 0 => rfl
  | _ :: ss, i + 1 => getElem?_substStmts locs ss i

/-! ## Steps -/

section

variable {env : CodeEnv} {locs : List (Caesium.VarName × Caesium.Val)} {blocks : Blocks}
  {code : PartialMap Caesium.Label Caesium.Stmt}

/-- What a head step of a frame means for the blocks. -/
inductive StepTracked (env : CodeEnv) (locs : List (Caesium.VarName × Caesium.Val))
    (blocks : Blocks) (start : BlockConfig) (events : List BlockEvent) (s : Caesium.Stmt) :
    Option Caesium.FrameEvent → Caesium.FramePos → Prop where
  /-- The first step of an assignment. -/
  | stays : StepTracked env locs blocks start events s none (.running s)
  | moves (event : Option BlockEvent) {event' : Option Caesium.FrameEvent} {d : BlockConfig}
      {pos : Caesium.FramePos} (reaches : BlockRun blocks start (events ++ event.toList) d)
      (same : SameEvent (EventDenotes env locs) event event')
      (denotes : PosDenotes env locs d pos) :
      StepTracked env locs blocks start events s event' pos
  /-- A printed assertion that does not hold. -/
  | fails {ot : Coq.OpType} {ot' : Caesium.OpType} {e : Coq.Expr} {e' : Caesium.Expr} {t : Coq.Stmt}
      (reaches : BlockRun blocks start events (.run (.assert ot e t)))
      (isType : denoteOpType env ot = .ok ot') (isExpr : denoteExpr env e = .ok e') :
      StepTracked env locs blocks start events s (some (.cond ot' (Caesium.substL locs e') false))
        (.running .stuckS)

private theorem switchBranch_denotes {map : List (Int × Nat)} {branches : List Coq.Stmt}
    {default : Coq.Stmt} {bs : List Caesium.Stmt} {def' : Caesium.Stmt} {n : Int}
    (isBranches : denoteStmts env branches = .ok bs) (isDefault : denoteStmt env default = .ok def')
    (inRange : ∀ i, PartialMap.ofList map n = some i →
      ((Caesium.substStmts locs bs)[i]?).isSome) :
    ∃ t, (SwitchTable.mk map branches default).branch n = some t ∧
      PosDenotes env locs (.run t) (.running
        (((PartialMap.ofList map n).bind fun i => (Caesium.substStmts locs bs)[i]?).getD
          (Caesium.substStmt locs def'))) := by
  rw [PartialMap.ofList_eq_lookup] at inRange ⊢
  cases found : map.lookup n with
  | none => exact ⟨default, by rw [SwitchTable.branch, found], .run isDefault⟩
  | some i =>
      obtain ⟨s1, isStmt⟩ := Option.isSome_iff_exists.mp (inRange i found)
      rw [getElem?_substStmts] at isStmt
      obtain ⟨s2, isElem, rfl⟩ := Option.map_eq_some_iff.mp isStmt
      obtain ⟨t, isBranch, denotes⟩ := getElem?_denoteStmts isBranches isElem
      refine ⟨t, by rw [SwitchTable.branch, found]; exact isBranch, ?_⟩
      rw [Option.bind_some, getElem?_substStmts, isElem]
      exact .run denotes

private theorem performs_tracked {start : BlockConfig} {events : List BlockEvent}
    {s' : Caesium.Stmt} {σ : Caesium.State} {event : Option Caesium.FrameEvent}
    {pos : Caesium.FramePos} (isCode : CodeDenotes env locs blocks code) :
    ∀ {t : Coq.Stmt} {s : Caesium.Stmt}, BlockRun blocks start events (.run t) →
      denoteStmt env t = .ok s →
        Caesium.Performs code σ (Caesium.substStmt locs s) s' event pos →
      StepTracked env locs blocks start events (Caesium.substStmt locs s) event pos
  | .goto id, s, reaches, denoted, performs => by
      cases denoted
      cases performs with
      | goto block =>
          obtain ⟨t, s1, isBlock, isStmt, rfl⟩ := isCode _ _ block
          refine .moves none (reaches.step fun oracle _ => ?_) .none (.run isStmt)
          simp only [blockSystem, stepBlock, isBlock, Option.map_some]
  | .ret e, s, reaches, denoted, performs => by
      obtain ⟨e', isExpr, denoted⟩ := bind_eq_ok.mp denoted
      cases denoted
      cases performs with
      | ret =>
          exact .moves (some (.ret e)) (reaches.step fun oracle _ => rfl)
            (.some (.ret isExpr)) .done
  | .switch it e map branches default, s, reaches, denoted, performs => by
      obtain ⟨e', isExpr, denoted⟩ := bind_eq_ok.mp denoted
      obtain ⟨bs, isBranches, denoted⟩ := bind_eq_ok.mp denoted
      obtain ⟨def', isDefault, denoted⟩ := bind_eq_ok.mp denoted
      cases denoted
      cases performs with
      | @switch _ _ v _ _ _ n value inRange =>
          obtain ⟨t, isBranch, isStmt⟩ := switchBranch_denotes isBranches isDefault inRange
          refine .moves (some (.switch it e n)) (reaches.step fun oracle agrees => ?_)
            (.some (.switch isExpr)) isStmt
          have outcome : oracle.switch events.length = n := agrees _ rfl
          simp only [blockSystem, stepBlock, outcome, isBranch, Option.map_some]
  | .assign atomic ot e1 e2 t, s, reaches, denoted, performs => by
      obtain ⟨ot', isType, denoted⟩ := bind_eq_ok.mp denoted
      obtain ⟨e1', isLeft, denoted⟩ := bind_eq_ok.mp denoted
      obtain ⟨e2', isRight, denoted⟩ := bind_eq_ok.mp denoted
      obtain ⟨s1, isStmt, denoted⟩ := bind_eq_ok.mp denoted
      cases denoted
      generalize isOrder : accessOrder atomic = o at performs ⊢
      cases performs with
      | start => exact .stays
      | assign last order =>
          subst isOrder
          exact .moves (some (.head (.assign atomic ot e1 e2)))
            (reaches.step fun oracle _ => rfl) (.some (.assign isType isLeft isRight)) (.run isStmt)
  | .skipS t, s, reaches, denoted, performs => by
      exact performs_tracked isCode (reaches.silent fun oracle => rfl) denoted performs
  | .ifS ot join e t1 t2, s, reaches, denoted, performs => by
      obtain ⟨ot', isType, denoted⟩ := bind_eq_ok.mp denoted
      obtain ⟨e', isExpr, denoted⟩ := bind_eq_ok.mp denoted
      obtain ⟨s1, isThen, denoted⟩ := bind_eq_ok.mp denoted
      obtain ⟨s2, isElse, denoted⟩ := bind_eq_ok.mp denoted
      cases denoted
      cases performs with
      | @ifS _ _ _ _ _ _ b condition =>
          refine .moves (some (.cond ot e b)) (d := .run (if b then t1 else t2))
            (reaches.step fun oracle agrees => ?_) (.some (.cond isType isExpr)) ?_
          · have outcome : oracle.cond events.length = b := agrees _ rfl
            cases b
            all_goals simp [blockSystem, stepBlock, outcome]
          · cases b with
            | true => exact .run isThen
            | false => exact .run isElse
  | .assert ot e t, s, reaches, denoted, performs => by
      obtain ⟨ot', isType, denoted⟩ := bind_eq_ok.mp denoted
      obtain ⟨e', isExpr, denoted⟩ := bind_eq_ok.mp denoted
      obtain ⟨s1, isStmt, denoted⟩ := bind_eq_ok.mp denoted
      cases denoted
      cases performs with
      | @ifS _ _ _ _ _ _ b condition =>
          cases b with
          | false => exact .fails reaches isType isExpr
          | true =>
              exact .moves (some (.head (.assert ot e)))
                (reaches.step fun oracle _ => rfl) (.some (.assert isType isExpr)) (.run isStmt)
  | .exprS annot e t, s, reaches, denoted, performs => by
      obtain ⟨e', isExpr, denoted⟩ := bind_eq_ok.mp denoted
      obtain ⟨s1, isStmt, denoted⟩ := bind_eq_ok.mp denoted
      cases denoted
      have noAnnot : annotateStmt annot (.exprS e' s1) = .exprS e' s1 := by
        cases annot
        all_goals rfl
      rw [noAnnot] at performs ⊢
      cases performs with
      | exprS =>
          exact .moves (some (.head (.exprS e))) (reaches.step fun oracle _ => rfl)
            (.some (.exprS isExpr)) (.run isStmt)

/-- The blocks perform the actions of the frame and reach its position. -/
def Tracks (env : CodeEnv) (locs : List (Caesium.VarName × Caesium.Val)) (blocks : Blocks)
    (start : BlockConfig) (events : List Caesium.FrameEvent) (pos : Caesium.FramePos) : Prop :=
  ∃ blockEvents d, BlockRun blocks start blockEvents d ∧
    List.Forall₂ (EventDenotes env locs) blockEvents events ∧ PosDenotes env locs d pos

/-- The last action of the frame is a printed assertion that does not hold. -/
def AssertionFailed (env : CodeEnv) (locs : List (Caesium.VarName × Caesium.Val))
    (blocks : Blocks) (start : BlockConfig) (events : List Caesium.FrameEvent)
    (pos : Caesium.FramePos) : Prop :=
  pos = .running .stuckS ∧ ∃ before ot ot' e e',
    events = before ++ [.cond ot' (Caesium.substL locs e') false] ∧
    denoteOpType env ot = .ok ot' ∧ denoteExpr env e = .ok e' ∧
    ∃ blockEvents t, BlockRun blocks start blockEvents (.run (.assert ot e t)) ∧
      List.Forall₂ (EventDenotes env locs) blockEvents before

variable {i : Nat} {K : List Caesium.LangEctx} {rf : Caesium.RuntimeFunction}
  {c₀ c : EctxiLanguage.Config Caesium.RuntimeExpr Caesium.State}
  {events : List Caesium.FrameEvent} {pos : Caesium.FramePos}

theorem Tracks.step {start : BlockConfig} {s : Caesium.Stmt} {t t' : Caesium.RuntimeExpr}
    {σ σ' : Caesium.State} {event : Option Caesium.FrameEvent}
    (tracks : Tracks env locs blocks start events (.running s))
    (isCode : CodeDenotes env locs blocks rf.rfFn.fCode)
    (step : Caesium.FrameStep rf s t σ event pos t' σ') :
    Tracks env locs blocks start (events ++ event.toList) pos ∨
      AssertionFailed env locs blocks start (events ++ event.toList) pos := by
  cases step with
  | inside step =>
      rw [Option.toList_none, List.append_nil]
      exact .inl tracks
  | head step performs =>
      have before := tracks
      obtain ⟨blockEvents, d, reaches, denote, atPos⟩ := tracks
      cases atPos with
      | run isStmt =>
          cases performs_tracked isCode reaches isStmt performs with
          | stays =>
              rw [Option.toList_none, List.append_nil]
              exact .inl before
          | moves event reaches' same denotes =>
              exact .inl ⟨_, _, reaches', same.append denote, denotes⟩
          | fails reaches' isType isExpr =>
              exact .inr ⟨rfl, _, _, _, _, _, rfl, isType, isExpr, _, _, reaches', denote⟩

/-- The actions of a frame are those of its blocks, up to an assertion that fails. -/
theorem frameRun_tracks (isCode : CodeDenotes env locs blocks rf.rfFn.fCode)
    (run : Caesium.FrameRun i K rf c₀ c events pos) :
    Tracks env locs blocks (.run (.goto rf.rfFn.fInit)) events pos ∨
      AssertionFailed env locs blocks (.run (.goto rf.rfFn.fInit)) events pos := by
  induction run with
  | enter entered => exact .inl ⟨[], _, .refl _ _, .nil, .run (s := .goto rf.rfFn.fInit) rfl⟩
  | other before step different inductionHypothesis => exact inductionHypothesis
  | left before step inductionHypothesis => exact inductionHypothesis
  | step before thread step threads inductionHypothesis =>
      rcases inductionHypothesis with tracks | ⟨isStuck, failed⟩
      · exact tracks.step isCode step
      · cases isStuck
        cases step with
        | inside step =>
            rw [Option.toList_none, List.append_nil]
            exact .inr ⟨rfl, failed⟩
        | head step performs => cases performs

end

/-! ## Emitted functions -/

section

variable {ctx : Ctx} {name : String} {decl : FunDecl} {fd : FunctionDefinition} {fn : Coq.FuncDef}
  {env : CodeEnv} {f : Caesium.Function} {lsa lsv : List Caesium.Loc}

/-- The block of a label is printed under the label. -/
theorem denoteFunction_blockMap (denoted : denoteFunction env fn = .ok f) {id : String}
    {s : Caesium.Stmt} (block : f.fCode id = some s) :
    ∃ t, fn.blockMap id = some t ∧ denoteStmt env t = .ok s := by
  obtain ⟨blocks, isBlocks, isCode, -⟩ := denoteFunction_eq_ok denoted
  rw [isCode, PartialMap.ofList_eq_lookup] at block
  rw [Coq.FuncDef.blockMap]
  have printed := mapM_eq_ok.mp isBlocks
  clear isBlocks isCode denoted
  generalize fn.blocks = ts at printed ⊢
  induction printed with
  | nil => cases block
  | @cons b b' ts ss isBlock _ inductionHypothesis =>
      obtain ⟨s1, isStmt, same⟩ := bind_eq_ok.mp isBlock
      cases same
      rw [List.lookup_cons] at block ⊢
      cases here : id == b.1 with
      | true =>
          rw [here] at block
          cases block
          exact ⟨b.2, rfl, isStmt⟩
      | false =>
          rw [here] at block
          exact inductionHypothesis block

/-- The frame of a call has the blocks of the function, with the locations of its variables. -/
theorem callFrame_codeDenotes (denoted : denoteFunction env fn = .ok f) :
    CodeDenotes env (Caesium.callSubst f lsa lsv) fn.blockMap
      (Caesium.callFrame f lsa lsv).rfFn.fCode := by
  intro b s block
  obtain ⟨s', isBlock, rfl⟩ := Option.map_eq_some_iff.mp block
  obtain ⟨t, found, isStmt⟩ := denoteFunction_blockMap denoted isBlock
  exact ⟨t, s', found, isStmt, rfl⟩

/-- The actions of emitted blocks are those of the body of the function. -/
theorem FunctionRun.source_trace (run : FunctionRun ctx name decl fd fn)
    (wellFormed : fd.WellFormed) (oracle : Oracle) (n : Nat) :
    ∃ m, List.Forall₂ (EventMatches ctx run.retTy (functionVars decl fd))
      ((stmtSystem run.stmts (fallOffValue run.retTy (name = "main")) oracle).trace
        (.run run.stmts .stop) m)
      ((blockSystem fn.blockMap oracle).trace (.run (.goto fn.init)) n) := by
  obtain ⟨e, code, isMatch⟩ := run.code (wellFormed _ _ run.isBody)
  have root : Runs run.emitted run.stmts .stop run.body := by
    refine ⟨none, _, [], .stop isMatch, ?_⟩
    rw [List.append_nil]
    exact code
  have start : Implements run.emitted fn.init run.stmts .stop := ⟨run.body, run.initBlock, root⟩
  exact ((simulation root oracle).traces start.related).2 n

/-- The statements perform actions whose translations denote the actions of a frame. -/
def SourcePerforms (ctx : Ctx) (name : String) (decl : FunDecl) (fd : FunctionDefinition)
    (env : CodeEnv) (locs : List (Caesium.VarName × Caesium.Val)) (stmts : List Stmt)
    (retTy : Option Coq.OpType) (events : List Caesium.FrameEvent) : Prop :=
  ∃ oracle n, List.Forall₂
    (Relation.Comp (EventMatches ctx retTy (functionVars decl fd)) (EventDenotes env locs))
    ((stmtSystem stmts (fallOffValue retTy (name = "main")) oracle).trace (.run stmts .stop) n)
    events

private theorem Tracks.sourcePerforms {locs : List (Caesium.VarName × Caesium.Val)}
    {events : List Caesium.FrameEvent} {pos : Caesium.FramePos}
    (run : FunctionRun ctx name decl fd fn) (wellFormed : fd.WellFormed)
    (tracks : Tracks env locs fn.blockMap (.run (.goto fn.init)) events pos) :
    SourcePerforms ctx name decl fd env locs run.stmts run.retTy events := by
  obtain ⟨blockEvents, d, ⟨n, reaches⟩, denote, -⟩ := tracks
  have exec := reaches _ (recordedOracle_agrees blockEvents)
  obtain ⟨m, source⟩ := run.source_trace wellFormed (recordedOracle blockEvents) n
  rw [EventSystem.trace, EventSystem.trace, exec] at source
  exact ⟨_, m, forall₂_comp source denote⟩

/-- The statements perform actions whose translations denote the actions of a frame, and then
evaluate an expression statement that is translated to an assertion. -/
def SourceAsserts (ctx : Ctx) (name : String) (decl : FunDecl) (fd : FunctionDefinition)
    (env : CodeEnv) (locs : List (Caesium.VarName × Caesium.Val)) (stmts : List Stmt)
    (retTy : Option Coq.OpType) (events : List Caesium.FrameEvent) (ot : Coq.OpType)
    (e : Coq.Expr) : Prop :=
  ∃ oracle n actions a,
    (stmtSystem stmts (fallOffValue retTy (name = "main")) oracle).trace (.run stmts .stop) n =
      actions ++ [.exprStmt a] ∧
    List.Forall₂
      (Relation.Comp (EventMatches ctx retTy (functionVars decl fd)) (EventDenotes env locs))
      actions events ∧
    TranslatesTo ctx (fun ctx => translateExprStmt ctx a) (.assert ot e)

/-- Only expression statements are translated to assertions. -/
theorem EventMatches.assert_inv {retTy : Option Coq.OpType} {declared : List (String × CType)}
    {action : Event} {ot : Coq.OpType} {e : Coq.Expr}
    (same : EventMatches ctx retTy declared action (.head (.assert ot e))) :
    ∃ a, action = .exprStmt a ∧
      TranslatesTo ctx (fun ctx => translateExprStmt ctx a) (.assert ot e) := by
  cases same with
  | exprStmt translated => exact ⟨_, rfl, translated⟩
  | init isDeclared translated =>
      obtain ⟨isLocal, used, used', translated⟩ := translated
      obtain ⟨ot', used1, -, translated⟩ := run_bind_eq_ok.mp translated
      obtain ⟨e', used2, -, translated⟩ := run_bind_eq_ok.mp translated
      cases translated

private theorem AssertionFailed.sourceAsserts {locs : List (Caesium.VarName × Caesium.Val)}
    {before : List Caesium.FrameEvent} {blockEvents : List BlockEvent} {ot : Coq.OpType}
    {e : Coq.Expr} {t : Coq.Stmt} (run : FunctionRun ctx name decl fd fn)
    (wellFormed : fd.WellFormed)
    (reaches : BlockRun fn.blockMap (.run (.goto fn.init)) blockEvents (.run (.assert ot e t)))
    (denote : List.Forall₂ (EventDenotes env locs) blockEvents before) :
    SourceAsserts ctx name decl fd env locs run.stmts run.retTy before ot e := by
  have asserted : BlockRun fn.blockMap (.run (.goto fn.init))
      (blockEvents ++ (some (BlockEvent.head (.assert ot e))).toList) (.run t) :=
    reaches.step fun oracle _ => rfl
  obtain ⟨n, reaches⟩ := asserted
  obtain ⟨oracle, agrees⟩ : ∃ oracle, Agrees oracle
      (blockEvents ++ (some (BlockEvent.head (.assert ot e))).toList) :=
    ⟨_, recordedOracle_agrees _⟩
  obtain ⟨m, source⟩ := run.source_trace wellFormed oracle n
  rw [EventSystem.trace, EventSystem.trace, reaches oracle agrees] at source
  have isSource := List.forall₂_take_append _ _ _ source
  obtain ⟨action, rest, same, isRest, isLast⟩ :=
    List.forall₂_cons_right_iff.mp (List.forall₂_drop_append _ _ _ source)
  obtain ⟨a, rfl, translated⟩ := same.assert_inv
  cases isRest
  refine ⟨oracle, m, _, a, ?_, forall₂_comp isSource denote, translated⟩
  rw [← isLast, List.take_append_drop]
  rfl

/-- A frame of an emitted function performs, whatever the other threads do, actions that
the body of the function performs in the same order. It can only stop to do so at a printed
assertion that fails, where its thread is stuck. -/
theorem emittedFrame_follows_source {bindings : List (Sym × CType)} {stmts : List Stmt} {i : Nat}
    {K : List Caesium.LangEctx} {c₀ : EctxiLanguage.Config Caesium.RuntimeExpr Caesium.State}
    (translated : translateFunction ctx name decl fd = .ok fn)
    (isBody : fd.body = .block bindings stmts) (wellFormed : fd.WellFormed)
    (denoted : denoteFunction env fn = .ok f)
    (entered : c₀.1[i]? = some (Caesium.cLang.fill K
      (Caesium.toRtstmt (Caesium.callFrame f lsa lsv) (.goto f.fInit)))) :
    let rf := Caesium.callFrame f lsa lsv
    let locs := Caesium.callSubst f lsa lsv
    (∀ c, Caesium.cLang.PoolSteps c₀ c →
      ∃ events pos, Caesium.FrameRun i K rf c₀ c events pos) ∧
    ∃ retTy, opTypeOpt ctx.impl decl.ret = .ok retTy ∧
      ∀ c events pos, Caesium.FrameRun i K rf c₀ c events pos →
        SourcePerforms ctx name decl fd env locs stmts retTy events ∨
          pos = .running .stuckS ∧ ∃ before ot ot' e e',
            events = before ++ [.cond ot' (Caesium.substL locs e') false] ∧
            denoteOpType env ot = .ok ot' ∧ denoteExpr env e = .ok e' ∧
            SourceAsserts ctx name decl fd env locs stmts retTy before ot e ∧
            ∃ t, c.1[i]? = some t ∧ Caesium.Stuck t c.2 := by
  intro rf locs
  obtain ⟨functionRun⟩ := translateFunction_run translated
  cases isBody.symm.trans functionRun.isBody
  refine ⟨fun c => Caesium.frameRun_of_poolSteps entered, functionRun.retTy,
    functionRun.isRet, ?_⟩
  intro c events pos frameRun
  have sameInit : rf.rfFn.fInit = fn.init := by
    obtain ⟨-, -, -, init, -⟩ := denoteFunction_eq_ok denoted
    rw [functionRun.init_eq]
    exact init
  have tracked := frameRun_tracks (callFrame_codeDenotes denoted) frameRun
  rw [sameInit] at tracked
  rcases tracked with
    tracks | ⟨rfl, before, ot, ot', e, e', rfl, isType, isExpr, blockEvents, t, reaches, denote⟩
  · exact .inl (tracks.sourcePerforms functionRun wellFormed)
  · rcases frameRun.holds with isReturned | ⟨t, thread, atPos⟩
    · cases isReturned
    · exact .inr ⟨rfl, before, ot, ot', e, e', rfl, isType, isExpr,
        AssertionFailed.sourceAsserts functionRun wellFormed reaches denote, _, thread,
        atPos.stuck⟩

end

/-- `if (1) assert(0);` -/
def assertBody : List Stmt :=
  [.ifS (intConst (.signed .int) 1)
    (.expr (.annotated (.rvalue .void) (.assert (intConst (.signed .int) 0)))) .skip]

def assertDecl : FunDecl := ⟨.void, [], []⟩

def assertDef : FunctionDefinition := ⟨[], .block [] assertBody⟩

def assertFuncDef : Coq.FuncDef where
  args := []
  vars := []
  init := "#0"
  blocks := [
    ("#0", .ifS (.int (.i32 true)) none (.val (.int "1" (.i32 true))) (.goto "#1") (.goto "#2")),
    ("#2", .ret (.val .void)),
    ("#1", .assert (.int (.i32 true)) (.val (.int "0" (.i32 true))) (.ret (.val .void)))]

private theorem assertDef_translated :
    translateFunction (lp64Ctx [] []) "f" assertDecl assertDef = .ok assertFuncDef := by
  with_unfolding_all rfl

private theorem assertDef_wellFormed : assertDef.WellFormed := by
  intro bindings stmts isBody
  cases isBody
  exact ⟨by simp [assertBody, CasesDistinctList, CasesDistinct],
    by simp [assertBody, gotosOfList, gotosOf]⟩

/-- No structs, unions or globals. -/
def emptyEnv : CodeEnv := ⟨fun _ => none, fun _ => none, fun _ => none, false⟩

def int32Val (n : Int) : Caesium.Val := (Caesium.valOfZ n Caesium.i32 none).getD []

/-- The block of the condition. -/
def assertStart : Caesium.Stmt :=
  .ifS (.intOp Caesium.i32) none (.val (int32Val 1)) (.goto "#1") (.goto "#2")

/-- The block of the assertion. -/
def assertThen : Caesium.Stmt :=
  .ifS (.intOp Caesium.i32) none (.val (int32Val 0)) (.return (.val [])) .stuckS

def assertFn : Caesium.Function where
  fArgs := []
  fLocalVars := []
  fCode := PartialMap.ofList
    [("#0", assertStart), ("#2", .return (.val [])), ("#1", assertThen)]
  fInit := "#0"

private theorem assertFuncDef_denoted : denoteFunction emptyEnv assertFuncDef = .ok assertFn := rfl

/-- A thread that executes a statement of the function, beside one that returned. -/
def assertConfig (s : Caesium.Stmt) : EctxiLanguage.Config Caesium.RuntimeExpr Caesium.State :=
  ([Caesium.toRtstmt (Caesium.callFrame assertFn [] []) s, Caesium.ofVal []],
    ⟨Caesium.initialHeapState, PartialMap.empty⟩)

/-- A run of the frame to a statement. -/
abbrev AssertRun (s : Caesium.Stmt) (events : List Caesium.FrameEvent) : Prop :=
  Caesium.FrameRun 0 [] (Caesium.callFrame assertFn [] []) (assertConfig (.goto "#0"))
    (assertConfig s) events (.running s)

theorem AssertRun.head {s s' : Caesium.Stmt} {events : List Caesium.FrameEvent}
    {event : Option Caesium.FrameEvent} (before : AssertRun s events)
    (step : Caesium.StmtStep s (Caesium.callFrame assertFn [] []) (assertConfig s).2
      (Caesium.toRtstmt (Caesium.callFrame assertFn [] []) s') (assertConfig s).2)
    (performs : Caesium.Performs (Caesium.callFrame assertFn [] []).rfFn.fCode (assertConfig s).2
      s s event (.running s')) : AssertRun s' (events ++ event.toList) :=
  .step before rfl (.head step performs) rfl

/-- The condition holds and the assertion fails. -/
def assertEvents : List Caesium.FrameEvent :=
  [.cond (.intOp Caesium.i32) (.val (int32Val 1)) true,
    .cond (.intOp Caesium.i32) (.val (int32Val 0)) false]

private theorem assertFn_frameRun : AssertRun .stuckS assertEvents := by
  have entered : AssertRun (.goto "#0") [] := .enter rfl
  have atStart : AssertRun assertStart [] := entered.head (.gotoS rfl) (.goto rfl)
  have decided : AssertRun (.goto "#1") (assertEvents.take 1) :=
    atStart.head (.ifSS (b := true) rfl) (.ifS (b := true) rfl)
  have atThen : AssertRun assertThen (assertEvents.take 1) :=
    decided.head (.gotoS rfl) (.goto rfl)
  exact atThen.head (.ifSS (b := false) rfl) (.ifS (b := false) rfl)

/-- The two actions of `if (1) assert(0);`, after which the thread is stuck. -/
theorem emittedFrame_follows_source_assert :
    let c := assertConfig .stuckS
    translateFunction (lp64Ctx [] []) "f" assertDecl assertDef = .ok assertFuncDef ∧
      denoteFunction emptyEnv assertFuncDef = .ok assertFn ∧ AssertRun .stuckS assertEvents ∧
      ∃ retTy,
        SourcePerforms (lp64Ctx [] []) "f" assertDecl assertDef emptyEnv [] assertBody retTy
          assertEvents ∨
        ∃ before ot ot' e e',
          assertEvents = before ++ [.cond ot' (Caesium.substL [] e') false] ∧
          denoteOpType emptyEnv ot = .ok ot' ∧ denoteExpr emptyEnv e = .ok e' ∧
          SourceAsserts (lp64Ctx [] []) "f" assertDecl assertDef emptyEnv [] assertBody retTy
            before ot e ∧
          ∃ t, c.1[0]? = some t ∧ Caesium.Stuck t c.2 := by
  have entered : (assertConfig (.goto "#0")).1[0]? = some (Caesium.cLang.fill []
      (Caesium.toRtstmt (Caesium.callFrame assertFn [] []) (.goto assertFn.fInit))) := rfl
  obtain ⟨-, retTy, -, follows⟩ := emittedFrame_follows_source assertDef_translated rfl
    assertDef_wellFormed assertFuncDef_denoted entered
  exact ⟨assertDef_translated, rfl, assertFn_frameRun, retTy,
    (follows _ _ _ assertFn_frameRun).imp id And.right⟩

end RefinedC.Frontend
