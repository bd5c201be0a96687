import XrayRs.StepSystem

/-! # Two programs talking over a pair of byte streams

A `Prog` is a program that writes and reads single bytes until it returns, a
`readExact` or `writeAll` being a loop of them; so whatever way the streams cut
and delay what is written, some order of single steps shows it.

Two such programs hold the ends of a connection.  What one has written and the
other has not read yet is in flight.  The streams are reliable: no byte is lost,
a write never fails, and a reader sees the end of the stream only once the other
side has failed or closed and everything in flight is read.  An end whose program
has returned `Ok` goes on to use the connection as a tunnel: it may send bytes of
its own (`payload`) and close, at any time, whether or not the other program has
returned.

Each program decides its own steps and the steps of the two commute.  Hence one
conversation that lets both programs return tells what happens in all of them
(`Run.settles`). -/

namespace Dialogue

open StepSystem

variable {B ε α β γ : Type}

/-! ## Programs -/

/-- A program over a byte stream. -/
inductive Prog (B ε α : Type)
  | done (r : Except ε α)
  | put (b : B) (next : Prog B ε α)
  /-- The next byte, or `none` at the end of the stream. -/
  | get (next : Option B → Prog B ε α)

namespace Prog

/-- Return an error. -/
def fail (e : ε) : Prog B ε α := .done (.error e)

/-- Sequencing, as `?` and `.await` have it: an error ends the program. -/
def bind : Prog B ε α → (α → Prog B ε β) → Prog B ε β
  | .done (.ok a), k => k a
  | .done (.error e), _ => .done (.error e)
  | .put b next, k => .put b (next.bind k)
  | .get next, k => .get fun b => (next b).bind k

instance : Monad (Prog B ε) where
  pure a := .done (.ok a)
  bind := bind

/-- A computation that does not touch the stream. -/
def lift (x : Except ε α) : Prog B ε α := .done x

/-- `write_all`. -/
def writeAll : List B → Prog B ε Unit
  | [] => pure ()
  | b :: bs => .put b (writeAll bs)

/-- `read_exact` of `n` bytes, failing with `eof` at the end of the stream. -/
def readExact (eof : ε) : Nat → Prog B ε (List B)
  | 0 => pure []
  | n + 1 => .get fun
    | none => fail eof
    | some b => do
      let bs ← readExact eof n
      return b :: bs

/-- `read_u8`. -/
def readU8 (eof : ε) : Prog B ε B :=
  .get fun
    | none => fail eof
    | some b => pure b

theorem bind_assoc (p : Prog B ε α) (k : α → Prog B ε β) (l : β → Prog B ε γ) :
    (p >>= k) >>= l = p >>= fun a => k a >>= l := by
  induction p with
  | done r =>
    cases r with
    | error e => rfl
    | ok a => rfl
  | put b next ih => exact congrArg (Prog.put b) ih
  | get next ih => exact congrArg Prog.get (funext ih)

end Prog

/-! ## Connections -/

/-- One end of a connection: what its program has left to do, the bytes in flight
from it, and, once it has returned, what it sent into the tunnel and whether it
closed. -/
structure Side (B ε α : Type) where
  prog : Prog B ε α
  out : List B
  payload : List B
  closed : Bool

/-- A connection between two programs. -/
structure Duplex (B ε α β : Type) where
  left : Side B ε α
  right : Side B ε β

/-- Nothing more will come from this end. -/
def Side.Over (s : Side B ε α) : Prop :=
  ∃ r, s.prog = .done r ∧ (s.closed = true ∨ ∃ e, r = .error e)

/-- The program has returned. -/
def Side.Returned (s : Side B ε α) : Prop := ∃ r, s.prog = .done r

/-- The program has returned `Ok`. -/
def Side.Succeeded (s : Side B ε α) : Prop := ∃ a, s.prog = .done (.ok a)

/-- What an end does with the other end: a step of its program, or of the tunnel. -/
inductive Deed
  | talk
  | tunnel
  deriving DecidableEq

/-- One step of the end `s` facing the end `o`. -/
inductive Side.Step : Side B ε α → Side B ε β → Deed → Side B ε α → Side B ε β → Prop
  | put {b : B} {next : Prog B ε α} {out payload : List B} {closed : Bool} {o : Side B ε β} :
      Step ⟨.put b next, out, payload, closed⟩ o .talk ⟨next, out ++ [b], payload, closed⟩ o
  | get {next : Option B → Prog B ε α} {out payload : List B} {closed : Bool}
      {o : Side B ε β} {b : B} {rest : List B} (hout : o.out = b :: rest) :
      Step ⟨.get next, out, payload, closed⟩ o .talk
        ⟨next (some b), out, payload, closed⟩ { o with out := rest }
  | eof {next : Option B → Prog B ε α} {out payload : List B} {closed : Bool}
      {o : Side B ε β} (hout : o.out = []) (hover : o.Over) :
      Step ⟨.get next, out, payload, closed⟩ o .talk ⟨next none, out, payload, closed⟩ o
  | send {a : α} {out payload : List B} {o : Side B ε β} (bs : List B) :
      Step ⟨.done (.ok a), out, payload, false⟩ o .tunnel
        ⟨.done (.ok a), out ++ bs, payload ++ bs, false⟩ o
  | close {a : α} {out payload : List B} {o : Side B ε β} :
      Step ⟨.done (.ok a), out, payload, false⟩ o .tunnel
        ⟨.done (.ok a), out, payload, true⟩ o

/-- The two ends. -/
inductive Party
  | left
  | right
  deriving DecidableEq

/-- One step of a connection. -/
inductive Step : Duplex B ε α β → Party × Deed → Duplex B ε α β → Prop
  | left {l l' : Side B ε α} {r r' : Side B ε β} {d : Deed} (h : l.Step r d l' r') :
      Step ⟨l, r⟩ (.left, d) ⟨l', r'⟩
  | right {l l' : Side B ε α} {r r' : Side B ε β} {d : Deed} (h : r.Step l d r' l') :
      Step ⟨l, r⟩ (.right, d) ⟨l', r'⟩

/-- A step of one of the programs. -/
def Talk (c : Duplex B ε α β) (p : Party) (c' : Duplex B ε α β) : Prop := Step c (p, .talk) c'

/-- A connection on which nobody has used the tunnel yet. -/
def Duplex.talking (p : Prog B ε α) (q : Prog B ε β) (up down : List B) : Duplex B ε α β :=
  ⟨⟨p, up, [], false⟩, ⟨q, down, [], false⟩⟩

/-! ## Steps of the programs commute -/

section Commute

variable {l l' l₁ : Side B ε α} {r r' r₁ : Side B ε β}

theorem Side.Step.deterministic (h : l.Step r .talk l' r') (h' : l.Step r .talk l₁ r₁) :
    l' = l₁ ∧ r' = r₁ := by
  cases h with
  | put =>
    cases h'
    exact ⟨rfl, rfl⟩
  | get hout =>
    cases h' with
    | get hout' =>
      rw [hout] at hout'
      cases hout'
      exact ⟨rfl, rfl⟩
    | eof hnil _ =>
      rw [hout] at hnil
      cases hnil
  | eof hout _ =>
    cases h' with
    | get hout' =>
      rw [hout] at hout'
      cases hout'
    | eof _ _ => exact ⟨rfl, rfl⟩

/-- A program that has a step left has not returned, nor is its end over. -/
theorem Side.Step.not_returned (h : l.Step r .talk l' r') : ¬ l.Returned := by
  rintro ⟨res, hres⟩
  cases h <;> cases hres

theorem Side.Step.not_over (h : l.Step r .talk l' r') : ¬ l.Over :=
  fun ⟨res, hres, _⟩ => h.not_returned ⟨res, hres⟩

/-- The steps of the two programs commute. -/
theorem Side.Step.commute (hl : l.Step r .talk l' r') (hr : r.Step l .talk r₁ l₁) :
    ∃ l₂ r₂, r'.Step l' .talk r₂ l₂ ∧ l₁.Step r₁ .talk l₂ r₂ := by
  have hl' := hl.not_over
  have hr' := hr.not_over
  cases hl with
  | put =>
    cases hr with
    | put => exact ⟨_, _, .put, .put⟩
    | get hout => exact ⟨_, _, .get (congrArg (· ++ [_]) hout), .put⟩
    | eof _ hover => exact absurd hover hl'
  | get hout =>
    cases hr with
    | put => exact ⟨_, _, .put, .get (congrArg (· ++ [_]) hout)⟩
    | get hout' => exact ⟨_, _, .get hout', .get hout⟩
    | eof _ hover => exact absurd hover hl'
  | eof _ hover => exact absurd hover hr'

end Commute

theorem talk_deterministic {c c' c₁ : Duplex B ε α β} {p : Party} (h : Talk c p c')
    (h' : Talk c p c₁) : c' = c₁ := by
  cases h with
  | left h =>
    cases h' with
    | left h' =>
      obtain ⟨rfl, rfl⟩ := h.deterministic h'
      rfl
  | right h =>
    cases h' with
    | right h' =>
      obtain ⟨rfl, rfl⟩ := h.deterministic h'
      rfl

theorem talk_commute {c c' c₁ : Duplex B ε α β} {p q : Party} (hne : p ≠ q) (h : Talk c p c')
    (h' : Talk c q c₁) : ∃ c₂, Talk c' q c₂ ∧ Talk c₁ p c₂ := by
  cases h with
  | left h =>
    cases h' with
    | left _ => exact absurd rfl hne
    | right h' =>
      obtain ⟨l₂, r₂, hr, hl⟩ := h.commute h'
      exact ⟨⟨l₂, r₂⟩, .right hr, .left hl⟩
  | right h =>
    cases h' with
    | right _ => exact absurd rfl hne
    | left h' =>
      obtain ⟨r₂, l₂, hl, hr⟩ := h.commute h'
      exact ⟨⟨l₂, r₂⟩, .left hl, .right hr⟩

/-! ## The tunnel

A connection with a tunnel in use is one without (`base`) whose bytes in flight
are followed by what the tunnel was given. -/

/-- `s` is `base` with a tunnel that has been used after the program returned. -/
structure Side.Extends (s base : Side B ε α) : Prop where
  prog : s.prog = base.prog
  out : s.out = base.out ++ s.payload
  fresh : base.closed = false
  /-- Only a program that has returned `Ok` uses the tunnel. -/
  used : s.payload ≠ [] ∨ s.closed = true → s.Succeeded

/-- Both ends extend those of `base`. -/
structure Duplex.Extends (c base : Duplex B ε α β) : Prop where
  left : c.left.Extends base.left
  right : c.right.Extends base.right

/-- A connection extends itself before the tunnel is used. -/
theorem talking_extends (p : Prog B ε α) (q : Prog B ε β) (up down : List B) :
    (Duplex.talking p q up down).Extends (Duplex.talking p q up down) := by
  have hself : ∀ {γ : Type} (r : Prog B ε γ) (out : List B),
      (⟨r, out, [], false⟩ : Side B ε γ).Extends ⟨r, out, [], false⟩ := by
    intro γ r out
    refine ⟨rfl, (List.append_nil out).symm, rfl, ?_⟩
    rintro (h | h)
    · exact absurd rfl h
    · cases h
  exact ⟨hself p up, hself q down⟩

/-- The programs have both returned. -/
def Duplex.Returned (c : Duplex B ε α β) : Prop := c.left.Returned ∧ c.right.Returned

theorem Duplex.Returned.not_talk {c c' : Duplex B ε α β} {p : Party} (h : c.Returned) :
    ¬ Talk c p c' := by
  intro hstep
  cases hstep with
  | left hs => exact hs.not_returned h.1
  | right hs => exact hs.not_returned h.2

section Tunnel

variable {l l' bl : Side B ε α} {r r' br : Side B ε β}

/-- A tunnel step leaves the programs where they are. -/
theorem Side.Step.extends_of_tunnel (h : l.Step r .tunnel l' r') (hl : l.Extends bl) :
    l'.Extends bl ∧ r' = r := by
  cases h with
  | send bs =>
    refine ⟨⟨hl.prog, ?_, hl.fresh, fun _ => ⟨_, rfl⟩⟩, rfl⟩
    have hout := hl.out
    simp only at hout ⊢
    rw [hout, List.append_assoc]
  | close => exact ⟨⟨hl.prog, hl.out, hl.fresh, fun _ => ⟨_, rfl⟩⟩, rfl⟩

/-- An end that is reading while the other one has sent everything and returned
`Ok`. -/
def Side.Starved (bl : Side B ε α) (br : Side B ε β) : Prop :=
  (∃ next, bl.prog = .get next) ∧ br.out = [] ∧ br.Succeeded ∧ br.closed = false

/-- A step of a program, unless it reads from the tunnel, is a step without the
tunnel. -/
theorem Side.Step.base_of_talk (h : l.Step r .talk l' r') (hl : l.Extends bl)
    (hr : r.Extends br) (hstarved : ¬ bl.Starved br) :
    ∃ bl' br', bl.Step br .talk bl' br' ∧ l'.Extends bl' ∧ r'.Extends br' := by
  obtain ⟨bprog, bout, bpayload, bclosed⟩ := bl
  obtain ⟨hprog, hout, hfresh, hused⟩ := hl
  -- a program with a step left has not used the tunnel
  have hidle : l.payload = [] ∧ l.closed = false := by
    by_contra hcon
    obtain ⟨a, ha⟩ := hused (by simpa [or_iff_not_imp_left] using hcon)
    exact h.not_returned ⟨_, ha⟩
  have hunused : ∀ {x : List B} {y : Bool} {p : Prog B ε α},
      x = [] ∧ y = false → x ≠ [] ∨ y = true → ∃ a, p = .done (.ok a) := by
    rintro x y p ⟨rfl, rfl⟩ (hx | hy)
    · exact absurd rfl hx
    · cases hy
  cases h with
  | put =>
    simp only at hprog hout hidle hfresh
    subst hprog
    refine ⟨_, br, .put, ⟨rfl, ?_, hfresh, hunused hidle⟩, hr⟩
    rw [hout, hidle.1, List.append_nil, List.append_nil]
  | @get next _ _ _ _ b rest hrest =>
    simp only at hprog hout hidle hfresh
    subst hprog
    have hflow := hr.out
    rw [hrest] at hflow
    cases hbr : br.out with
    | nil =>
      -- what it would read is the tunnel's
      rw [hbr, List.nil_append] at hflow
      obtain ⟨a, ha⟩ := hr.used (.inl (by rw [← hflow]; exact List.cons_ne_nil b rest))
      exact absurd ⟨⟨next, rfl⟩, hbr, ⟨a, hr.prog ▸ ha⟩, hr.fresh⟩ hstarved
    | cons b' rest' =>
      rw [hbr, List.cons_append] at hflow
      obtain ⟨rfl, hrest'⟩ := List.cons.inj hflow
      exact ⟨_, _, .get hbr, ⟨rfl, hout, hfresh, hunused hidle⟩,
        ⟨hr.prog, hrest', hr.fresh, hr.used⟩⟩
  | @eof next _ _ _ _ hnil hover =>
    simp only at hprog hout hidle hfresh
    subst hprog
    have hflow := hr.out
    rw [hnil] at hflow
    obtain ⟨hbr, -⟩ := List.append_eq_nil_iff.mp hflow.symm
    obtain ⟨res, hres, hclosed | ⟨e, rfl⟩⟩ := hover
    · obtain ⟨a, ha⟩ := hr.used (.inr hclosed)
      exact absurd ⟨⟨next, rfl⟩, hbr, ⟨a, hr.prog ▸ ha⟩, hr.fresh⟩ hstarved
    · exact ⟨_, br, .eof hbr ⟨_, hr.prog ▸ hres, .inr ⟨e, rfl⟩⟩,
        ⟨rfl, hout, hfresh, hunused hidle⟩, hr⟩

/-- A step that is possible without the tunnel is possible with it. -/
theorem Side.Step.talk_of_base {bl' : Side B ε α} {br' : Side B ε β}
    (h : bl.Step br .talk bl' br') (hl : l.Extends bl) (hr : r.Extends br) :
    ∃ l' r', l.Step r .talk l' r' := by
  obtain ⟨prog, out, payload, closed⟩ := l
  have hprog : prog = bl.prog := hl.prog
  subst hprog
  cases h with
  | put => exact ⟨_, _, .put⟩
  | @get next _ _ _ _ b rest hrest =>
    have hflow : r.out = b :: (rest ++ r.payload) := by
      rw [hr.out, hrest]
      rfl
    exact ⟨_, _, .get hflow⟩
  | eof hnil hover =>
    obtain ⟨res, hres, hclosed | ⟨e, rfl⟩⟩ := hover
    · rw [hr.fresh] at hclosed
      cases hclosed
    · have hpay : r.payload = [] := by
        by_contra hne
        obtain ⟨a, ha⟩ := hr.used (.inl hne)
        rw [hr.prog, hres] at ha
        cases ha
      refine ⟨_, _, .eof ?_ ⟨_, hr.prog.trans hres, .inr ⟨e, rfl⟩⟩⟩
      rw [hr.out, hnil, hpay]
      rfl

/-- A starved end stays where it is, and so does the other one. -/
theorem Side.Starved.stuck (h : bl.Starved br) :
    ¬ bl.Returned ∧ (∀ bl' br', ¬ bl.Step br .talk bl' br') ∧
      ∀ br' bl', ¬ br.Step bl .talk br' bl' := by
  obtain ⟨⟨next, hnext⟩, hnil, ⟨a, ha⟩, hopen⟩ := h
  refine ⟨?_, ?_, fun br' bl' hstep => hstep.not_returned ⟨_, ha⟩⟩
  · rintro ⟨res, hres⟩
    rw [hnext] at hres
    cases hres
  · intro bl' br' hstep
    cases hstep with
    | put => cases hnext
    | get hout =>
      rw [hnil] at hout
      cases hout
    | eof _ hover =>
      obtain ⟨res, hres, hclosed | ⟨e, rfl⟩⟩ := hover
      · rw [hopen] at hclosed
        cases hclosed
      · rw [ha] at hres
        cases hres

/-- A program that has returned keeps its result. -/
theorem Side.Step.keeps_result {d : Deed} (h : l.Step r d l' r') :
    (∀ res, l.prog = .done res → l'.prog = .done res) ∧ r'.prog = r.prog := by
  cases h with
  | put => exact ⟨fun res hres => (by cases hres), rfl⟩
  | get _ => exact ⟨fun res hres => (by cases hres), rfl⟩
  | eof _ _ => exact ⟨fun res hres => (by cases hres), rfl⟩
  | send bs => exact ⟨fun res hres => hres, rfl⟩
  | close => exact ⟨fun res hres => hres, rfl⟩

end Tunnel

/-- Where the programs can still both return, neither end is starved. -/
theorem not_starved {base last : Duplex B ε α β} {trace : List (Party × Duplex B ε α β)}
    (hrun : Run Talk base trace last) (hlast : last.Returned) :
    ¬ base.left.Starved base.right ∧ ¬ base.right.Starved base.left := by
  cases hrun with
  | nil => exact ⟨fun h => h.stuck.1 hlast.1, fun h => h.stuck.1 hlast.2⟩
  | cons hfirst _ =>
    cases hfirst with
    | left hs => exact ⟨fun h => h.stuck.2.1 _ _ hs, fun h => h.stuck.2.2 _ _ hs⟩
    | right hs => exact ⟨fun h => h.stuck.2.2 _ _ hs, fun h => h.stuck.2.1 _ _ hs⟩

/-! ## What one conversation tells -/

/-- The steps of the programs in a run. -/
def talks (trace : List ((Party × Deed) × Duplex B ε α β)) : Nat :=
  trace.countP fun p => p.1.2 = .talk

section Settle

variable {c c' base last : Duplex B ε α β} {talk : List (Party × Duplex B ε α β)} {p : Party}

/-- A step of a program, next to the conversation without the tunnel. -/
theorem extends_of_talk (h : Step c (p, .talk) c') (hext : c.Extends base)
    (hrun : Run Talk base talk last) (hlast : last.Returned) :
    ∃ base' rest, c'.Extends base' ∧ Run Talk base' rest last ∧ rest.length + 1 = talk.length := by
  obtain ⟨hl, hr⟩ := not_starved hrun hlast
  have hbase : ∃ base', Talk base p base' ∧ c'.Extends base' := by
    cases h with
    | left hs =>
      obtain ⟨bl', br', hbase, hl', hr'⟩ := hs.base_of_talk hext.left hext.right hl
      exact ⟨⟨bl', br'⟩, .left hbase, hl', hr'⟩
    | right hs =>
      obtain ⟨br', bl', hbase, hr', hl'⟩ := hs.base_of_talk hext.right hext.left hr
      exact ⟨⟨bl', br'⟩, .right hbase, hl', hr'⟩
  obtain ⟨base', hstep, hext'⟩ := hbase
  have hrest : ∃ rest, Run Talk base' rest last ∧ rest.length + 1 = talk.length := by
    apply Run.rest_of_step _ _ hrun _ hstep
    · exact fun s a t t' => talk_deterministic
    · exact fun s a b t u => talk_commute
    · exact fun a t => hlast.not_talk
  obtain ⟨rest, hrest, hlen⟩ := hrest
  exact ⟨base', rest, hext', hrest, hlen⟩

theorem extends_of_tunnel (h : Step c (p, .tunnel) c') (hext : c.Extends base) :
    c'.Extends base := by
  cases h with
  | left hs =>
    obtain ⟨hl, rfl⟩ := hs.extends_of_tunnel hext.left
    exact ⟨hl, hext.right⟩
  | right hs =>
    obtain ⟨hr, rfl⟩ := hs.extends_of_tunnel hext.right
    exact ⟨hext.left, hr⟩

/-- Every run, tunnel or not, goes along a conversation of the same length. -/
theorem run_extends {trace : List ((Party × Deed) × Duplex B ε α β)} (h : Run Step c trace c')
    (hext : c.Extends base) (hrun : Run Talk base talk last) (hlast : last.Returned) :
    ∃ base' rest, c'.Extends base' ∧ Run Talk base' rest last ∧
      talks trace + rest.length = talk.length := by
  induction h generalizing base talk with
  | nil c => exact ⟨base, talk, hext, hrun, Nat.zero_add _⟩
  | @cons c c' u a trace hfirst _ ih =>
    obtain ⟨p, d⟩ := a
    cases d with
    | talk =>
      obtain ⟨base', mid, hext', hmid, hlen⟩ := extends_of_talk hfirst hext hrun hlast
      obtain ⟨base'', rest, hext'', hrest, hlen'⟩ := ih hext' hmid
      refine ⟨base'', rest, hext'', hrest, ?_⟩
      have hcount : talks (((p, .talk), c') :: trace) = talks trace + 1 :=
        List.countP_cons_of_pos rfl
      omega
    | tunnel =>
      obtain ⟨base', rest, hext', hrest, hlen⟩ := ih (extends_of_tunnel hfirst hext) hrun
      refine ⟨base', rest, hext', hrest, ?_⟩
      have hcount : talks (((p, .tunnel), c') :: trace) = talks trace :=
        List.countP_cons_of_neg (by simp)
      omega

/-- The result of a program that has returned is the one it ends with. -/
theorem result_of_run (hrun : Run Talk base talk last) :
    (∀ res, base.left.prog = .done res → last.left.prog = .done res) ∧
      ∀ res, base.right.prog = .done res → last.right.prog = .done res := by
  induction hrun with
  | nil => exact ⟨fun _ => id, fun _ => id⟩
  | cons hfirst _ ih =>
    cases hfirst with
    | left hs =>
      obtain ⟨hl, hr⟩ := hs.keeps_result
      exact ⟨fun res hres => ih.1 res (hl res hres), fun res hres => ih.2 res (hr.trans hres)⟩
    | right hs =>
      obtain ⟨hr, hl⟩ := hs.keeps_result
      exact ⟨fun res hres => ih.1 res (hl.trans hres), fun res hres => ih.2 res (hr res hres)⟩

end Settle

/-- **What a state has to do with the end of the conversation.**  `n` steps of the
programs were there to take and `k` were taken. -/
structure Settles (last : Duplex B ε α β) (n k : Nat) (c : Duplex B ε α β) : Prop where
  bounded : k ≤ n
  /-- As long as a program has not returned, one of the two can go on. -/
  live : ¬ c.Returned → ∃ p c', Step c (p, .talk) c'
  left_result : ∀ res, c.left.prog = .done res → last.left.prog = .done res
  right_result : ∀ res, c.right.prog = .done res → last.right.prog = .done res
  /-- What the tunnel was given is still unread. -/
  payload_unread : c.left.payload <:+ c.left.out ∧ c.right.payload <:+ c.right.out
  /-- Once both have returned, what is unread is what the conversation left, then
  what the tunnel was given. -/
  unread : c.Returned → c.left.out = last.left.out ++ c.left.payload ∧
    c.right.out = last.right.out ++ c.right.payload

/-- **One conversation tells all**: if from a connection without a tunnel the
programs can both return, then every run settles on the same end. -/
theorem settles_of_run {start last c : Duplex B ε α β} {talk : List (Party × Duplex B ε α β)}
    {trace : List ((Party × Deed) × Duplex B ε α β)} (hstart : start.Extends start)
    (hrun : Run Talk start talk last) (hlast : last.Returned) (h : Run Step start trace c) :
    Settles last talk.length (talks trace) c := by
  obtain ⟨base, rest, hext, hrest, hlen⟩ := run_extends h hstart hrun hlast
  obtain ⟨hl, hr⟩ := result_of_run hrest
  refine ⟨by omega, fun hnot => ?_, fun res hres => hl res (hext.left.prog ▸ hres),
    fun res hres => hr res (hext.right.prog ▸ hres), ⟨?_, ?_⟩, fun hret => ?_⟩
  · cases hrest with
    | nil =>
      exact absurd (And.imp (fun ⟨r, hr⟩ => ⟨r, hext.left.prog.trans hr⟩)
        (fun ⟨r, hr⟩ => ⟨r, hext.right.prog.trans hr⟩) hlast) hnot
    | cons hfirst _ =>
      obtain ⟨l, r⟩ := c
      cases hfirst with
      | left hs =>
        obtain ⟨l', r', hstep⟩ := hs.talk_of_base hext.left hext.right
        exact ⟨_, _, .left hstep⟩
      | right hs =>
        obtain ⟨r', l', hstep⟩ := hs.talk_of_base hext.right hext.left
        exact ⟨_, _, .right hstep⟩
  · rw [hext.left.out]
    exact List.suffix_append _ _
  · rw [hext.right.out]
    exact List.suffix_append _ _
  · cases hrest with
    | nil => exact ⟨hext.left.out, hext.right.out⟩
    | cons hfirst _ =>
      have hbase : base.Returned := And.imp (fun ⟨r, hr⟩ => ⟨r, hext.left.prog ▸ hr⟩)
        (fun ⟨r, hr⟩ => ⟨r, hext.right.prog ▸ hr⟩) hret
      exact absurd hfirst hbase.not_talk

/-! ## Building a conversation

One rule for each thing a program does, to be applied from the front. -/

/-- The programs alone can lead from `c` to `last`. -/
def Leads (c last : Duplex B ε α β) : Prop := ∃ talk, Run Talk c talk last

section Leads

variable {last : Duplex B ε α β} {p p' : Prog B ε α} {q q' : Prog B ε β} {up down : List B}

theorem Leads.refl (c : Duplex B ε α β) : Leads c c := ⟨[], .nil c⟩

theorem Leads.cons {c c' : Duplex B ε α β} {p : Party} (hstep : Talk c p c') (h : Leads c' last) :
    Leads c last := by
  obtain ⟨talk, hrun⟩ := h
  exact ⟨_, .cons hstep hrun⟩

theorem Leads.write_left {k : Unit → Prog B ε α} {bs : List B}
    (h : Leads (.talking (k ()) q (up ++ bs) down) last) :
    Leads (.talking (Prog.writeAll bs >>= k) q up down) last := by
  induction bs generalizing up with
  | nil =>
    rw [List.append_nil] at h
    exact h
  | cons b bs ih =>
    refine .cons (.left .put) (ih ?_)
    rw [List.append_assoc]
    exact h

theorem Leads.write_right {k : Unit → Prog B ε β} {bs : List B}
    (h : Leads (.talking p (k ()) up (down ++ bs)) last) :
    Leads (.talking p (Prog.writeAll bs >>= k) up down) last := by
  induction bs generalizing down with
  | nil =>
    rw [List.append_nil] at h
    exact h
  | cons b bs ih =>
    refine .cons (.right .put) (ih ?_)
    rw [List.append_assoc]
    exact h

theorem Leads.read_left {k : List B → Prog B ε α} {eof : ε} {n : Nat} {bs : List B}
    (hlen : bs.length = n) (h : Leads (.talking (k bs) q up down) last) :
    Leads (.talking (Prog.readExact eof n >>= k) q up (bs ++ down)) last := by
  induction bs generalizing n k with
  | nil =>
    obtain rfl := hlen
    exact h
  | cons b bs ih =>
    obtain rfl := hlen
    refine .cons (.left (.get rfl)) ?_
    show Leads (.talking ((Prog.readExact eof bs.length >>= fun r => pure (b :: r)) >>= k) q up
      (bs ++ down)) last
    rw [Prog.bind_assoc]
    exact ih rfl h

theorem Leads.read_right {k : List B → Prog B ε β} {eof : ε} {n : Nat} {bs : List B}
    (hlen : bs.length = n) (h : Leads (.talking p (k bs) up down) last) :
    Leads (.talking p (Prog.readExact eof n >>= k) (bs ++ up) down) last := by
  induction bs generalizing n k with
  | nil =>
    obtain rfl := hlen
    exact h
  | cons b bs ih =>
    obtain rfl := hlen
    refine .cons (.right (.get rfl)) ?_
    show Leads (.talking p ((Prog.readExact eof bs.length >>= fun r => pure (b :: r)) >>= k)
      (bs ++ up) down) last
    rw [Prog.bind_assoc]
    exact ih rfl h

/-- The whole of what is in flight is read. -/
theorem Leads.read_left_all {k : List B → Prog B ε α} {eof : ε} {n : Nat} {bs : List B}
    (hlen : bs.length = n) (h : Leads (.talking (k bs) q up []) last) :
    Leads (.talking (Prog.readExact eof n >>= k) q up bs) last := by
  rw [← List.append_nil bs] at hlen ⊢
  exact Leads.read_left (List.append_nil bs ▸ hlen) h

theorem Leads.read_right_all {k : List B → Prog B ε β} {eof : ε} {n : Nat} {bs : List B}
    (hlen : bs.length = n) (h : Leads (.talking p (k bs) [] down) last) :
    Leads (.talking p (Prog.readExact eof n >>= k) bs down) last := by
  rw [← List.append_nil bs] at hlen ⊢
  exact Leads.read_right (List.append_nil bs ▸ hlen) h

theorem Leads.readU8_right {k : B → Prog B ε β} {eof : ε} {b : B}
    (h : Leads (.talking p (k b) up down) last) :
    Leads (.talking p (Prog.readU8 eof >>= k) (b :: up) down) last :=
  .cons (.right (.get rfl)) h

end Leads

end Dialogue
