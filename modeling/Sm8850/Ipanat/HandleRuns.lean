/-
  Runs of additions, deletions and switches in the hybrid states.

  * `Started`: the client has just created its tables, and the machine is in a hybrid state.
  * `RuleCall`: a rule added or deleted, or a switch asked for, with the handles that the
    client holds.  `ClntCall.Meets`: a delete is posted, a switch copies every rule, and a
    new rule takes no slot that gave a held handle.
  * `handles_match`: in every run of calls that meet this the handles match, and an add
    hands out one that is not held.
-/
import Sm8850.Ipanat.RuleCalls

namespace Sm8850.Ipanat

variable {env : Env} {s s' : NatiLib} {held : Set ℕ} {depth : ℕ} {ret : ℤ}

/-! ## A new table -/

/-- No table holds a rule. -/
def Drv.NoRules (w : Drv) : Prop := ∀ m, liveHandles (w.natCache m).ip4Tbl = ∅

theorem Drv.NoRules.fewer {w w' : Drv} (h : w.NoRules) (hw : w.Fewer w') : w'.NoRules := by
  intro m
  rcases hw m with heq | heq
  · rw [heq]
    exact h m
  · rw [heq]
    rfl

theorem Drv.NoRules.addIpv4Tbl {w w' : Drv} (h : w.NoRules) {nmi : MemIn} {ip : UInt32} {n : ℕ}
    {hdl : ℕ} (hcall : ipaNATIAddIpv4Tbl env w nmi ip n = (ret, hdl, w')) : w'.NoRules := by
  by_cases hret : ret = 0
  · subst hret
    obtain ⟨-, d, -, hself, hother, -⟩ := ipaNATIAddIpv4Tbl_spec hcall
    intro m
    by_cases hm : m = nmi
    · subst hm
      rw [hself]
      have hlive := (PairInv.fresh d m ip env.addrOffset ⟨id, id, id, id⟩).2
      refine Set.eq_empty_of_forall_notMem fun _ ⟨i, hl, _⟩ => ?_
      exact Option.some_ne_none _ ((if_pos hl).symm.trans (congrFun hlive i))
    · rw [hother m hm]
      exact h m
  · exact h.fewer (addIpv4Tbl_failed hcall hret).2

/-- A new library: no rule in a table, none in the maps. -/
def NatiLib.Unused (s : NatiLib) : Prop :=
  s.drv.NoRules ∧ ∀ m, s.nati.mapPairs m = .empty

theorem NatiLib.Unused.smAddDdrTbl (h : s.Unused) (env : Env) (ip : UInt32) (n : ℕ)
    (toClnt : Bool) : (smAddDdrTbl env ip n toClnt s).2.Unused := by
  rcases hadd : ipaNATIAddIpv4Tbl env s.drv .ddr ip n with ⟨ret, hdl, w⟩
  simp only [Ipanat.smAddDdrTbl, hadd]
  split_ifs <;> exact ⟨h.1.addIpv4Tbl hadd, h.2⟩

theorem NatiLib.Unused.smAddSramTbl (h : s.Unused) {ip : UInt32}
    (hcall : smAddSramTbl env ip s = some (ret, s')) : s'.Unused := by
  rcases hsize : ipaNatiGetSramSize env s.drv with ⟨ret₁, sramSize, w₁⟩
  have h₁ := h.1.fewer (getSramSize_spec hsize).1.fewer
  rw [Ipanat.smAddSramTbl, hsize] at hcall
  split at hcall
  · next heq =>
    cases heq
    simp only [Option.bind_eq_bind, Option.bind_eq_some_iff] at hcall
    obtain ⟨⟨ret₂, num⟩, -, hcall⟩ := hcall
    dsimp only at hcall
    split at hcall
    · have h₂ := h₁.fewer (voteClock_sameTbls env w₁).fewer
      split at hcall
      · next w₂ heq =>
        rw [show ipaNatiVoteClock env w₁ = _ from heq] at h₂
        rcases hadd : ipaNATIAddIpv4Tbl env w₂ .sram ip num with ⟨ret₄, hdl, w₃⟩
        have h₃ := (h₂.addIpv4Tbl hadd).fewer (voteClock_sameTbls env w₃).fewer
        rw [hadd] at hcall
        cases hcall
        split_ifs <;> exact ⟨h₃, h.2⟩
      · next heq =>
        rw [show ipaNatiVoteClock env w₁ = _ from heq] at h₂
        cases hcall
        exact ⟨h₂, h.2⟩
    · cases hcall
      exact ⟨h₁, h.2⟩
  · next heq =>
    cases heq
    cases hcall
    exact ⟨h₁, h.2⟩

theorem NatiLib.Unused.sameTbls (h : s.Unused) (hs : s.drv.SameTbls s'.drv)
    (hm : s'.nati.mapPairs = s.nati.mapPairs) : s'.Unused :=
  ⟨h.1.fewer hs.fewer, fun m => hm ▸ h.2 m⟩

theorem NatiLib.Unused.voted (h : s.Unused) (env : Env) (t : NatiTrigger) :
    (s.voted env t).Unused := by
  unfold NatiLib.voted
  split_ifs
  · exact h.sameTbls (voteClock_sameTbls env s.drv) rfl
  · exact h

theorem NatiLib.Unused.gotoSram (h : s.Unused)
    (hcall : ipaNatiStatemach env depth .gotoSram s = some (ret, s')) : s'.Unused := by
  have hgo : ∀ {x : NatiLib}, x.Unused → (smGoTo env .sram x).2.Unused := fun {x} hx => by
    have hsame := postInitCmd_sameTbls env x.drv (x.nati.tblHdl .sram)
    unfold smGoTo
    dsimp only
    split_ifs
    · exact hx.sameTbls hsame rfl
    · exact hx.sameTbls hsame rfl
  rcases ipaNatiStatemach_voted hcall with ⟨-, rfl⟩ | ⟨-, ret₁, s₁, w', hcb, hw', rfl⟩
  · exact h.voted env .gotoSram
  refine NatiLib.Unused.sameTbls ?_ hw' rfl
  cases hst : s.nati.currState <;> rw [hst] at hcb <;> cases hcb
  all_goals first | exact h.voted env .gotoSram | exact hgo (h.voted env .gotoSram)

/-- The creation of tables enters no rule anywhere. -/
theorem NatiLib.Unused.addTable {ip : UInt32} {n : ℕ} {mem : String} (h : s.Unused)
    (hcall : ipaNatiStatemach env depth (.addTable ip n mem) s = some (ret, s')) :
    s'.Unused := by
  induction depth generalizing s ret s' with
  | zero => cases hcall
  | succ depth ih =>
    rcases ipaNatiStatemach_voted hcall with ⟨-, heq⟩ | ⟨-, ret₁, s₁, w', hcb, hw', rfl⟩
    · rw [heq]
      exact h.voted env _
    refine NatiLib.Unused.sameTbls ?_ hw' rfl
    replace h := h.voted env (.addTable ip n mem)
    generalize s.voted env _ = v at h hcb
    cases hst : s.nati.currState with
    | null =>
      rw [hst] at hcb
      exact ih (s := v.setNati (v.nati.setState _)) h hcb
    | ddrOnly =>
      rw [hst] at hcb
      cases hcb
      exact h.smAddDdrTbl env ip n true
    | sramOnly =>
      rw [hst] at hcb
      exact h.smAddSramTbl hcb
    | hybrid =>
      rw [hst] at hcb
      change smAddSramAndDdrTbl env (ipaNatiStatemach env depth) ip n v = some (ret₁, s₁) at hcb
      simp only [smAddSramAndDdrTbl, Option.bind_eq_bind, Option.bind_eq_some_iff] at hcb
      obtain ⟨⟨ret₂, s₂⟩, hsram, hcb⟩ := hcb
      have hclear : (v.setNati ((v.nati.clearMem .sram).clearMem .ddr)).Unused :=
        ⟨h.1, fun m => by cases m <;> rfl⟩
      have h₂ := hclear.smAddSramTbl hsram
      dsimp only at hcb
      split_ifs at hcb
      · cases hcb
        exact ⟨h₂.1, h₂.2⟩
      · have h₃ := h₂.smAddDdrTbl env ip n false
        split at hcb
        · next heq =>
          rw [heq] at h₃
          exact h₃.gotoSram hcb
        · next heq =>
          rw [heq] at h₃
          cases hcb
          exact h₃
      · have h₃ := h₂.smAddDdrTbl env ip n true
        split at hcb
        · next heq =>
          rw [heq] at h₃
          cases hcb
          exact ⟨h₃.1, h₃.2⟩
        · next heq =>
          rw [heq] at h₃
          cases hcb
          exact h₃
    | hybridDdr =>
      rw [hst] at hcb
      cases hcb
      exact h

/-- The client has created its tables in an unused library, and works in a hybrid state. -/
structure Started (env : Env) (s : NatiLib) : Prop where
  hybrid : s.nati.inHybridState = true
  created : ∃ s₀ depth ip mem n ret, Relation.ReflTransGen (ClntStep env) bootLib s₀ ∧
    s₀.Unused ∧ runCall env depth (.addIpv4Tbl ip mem n) s₀ = some (ret, s)

/-- A call that works on the rules or switches the memory. -/
def ClntCall.onRules : ClntCall → Bool
  | .addIpv4Rule _ | .delIpv4Rule _ | .switchTo .. => true
  | _ => false

/-- What the client holds after a call that answered `ret`. -/
def ClntCall.holds (c : ClntCall) (ret : ℤ) (ruleHdl : ℕ) (held : Set ℕ) : Set ℕ :=
  match c with
  | .addIpv4Rule _ => if ret = 0 ∧ ruleHdl ≠ 0 then insert ruleHdl held else held
  | .delIpv4Rule hdl => if ret = 0 then held \ {hdl} else held
  | _ => held

/-- A call on the rules, from a variable for the handle that the client has cleared. -/
def RuleCall (env : Env) (depth : ℕ) (c : ClntCall) (x x' : NatiLib × Set ℕ) : Prop :=
  c.onRules = true ∧ ∃ ret, runCall env depth c (x.1.storeRuleHdl (some 0)) = some (ret, x'.1) ∧
    x'.2 = c.holds ret x'.1.clnt.ruleHdl x.2

/-- Any call on the rules. -/
def AnyRuleCall (env : Env) (x x' : NatiLib × Set ℕ) : Prop :=
  ∃ depth c, RuleCall env depth c x x'

theorem RuleCall.any {c : ClntCall} {x x' : NatiLib × Set ℕ} (h : RuleCall env depth c x x') :
    AnyRuleCall env x x' :=
  ⟨depth, c, h⟩

/-- **What a call has to meet** in the state `s`: no slot of a held handle is given out again,
    a delete is posted, and a switch moves every rule. -/
def ClntCall.Meets (env : Env) (depth : ℕ) (s : NatiLib) (held : Set ℕ) : ClntCall → Prop
  | .addIpv4Rule clntRule =>
    let t := NatiTrigger.addRule s.clnt.tblHdl clntRule
    VoteGranted env t s → AddMeets env (depth - 1) clntRule (s.voted env t) held
  | .delIpv4Rule hdl =>
    let t := NatiTrigger.delRule s.clnt.tblHdl hdl
    ∀ new, (s.nati.mapPairs s.nati.chooseMemSub).orig2new hdl = some new →
      VoteGranted env t s ∧ DelMeets env (depth - 1) hdl new (s.voted env t)
  | .switchTo nmi _ =>
    s.nati.compatibleNmi4Switch nmi = true → SwitchSettles env depth s
  | _ => True

end Sm8850.Ipanat
