import TowerLisp.Proofs.FormShapes
import TowerLisp.Proofs.TokenConservation

/-!
Templates as they are read. The reader keeps count of the quasiquotes around it, and reads as
code what is unquoted at depth one. `Noted` goes along with the grammar and notes, in the order
of the text, in which mode each form of a template is read; it stops where code starts. Wherever
the grammar finds a template, there are such notes.
-/

namespace TowerLisp

/-- A form that is met in a template, with the mode in which it is taken. -/
abbrev Note := Mode × Form

/-- The forms of a template that are read as code, in order. -/
def codeOf (notes : List Note) : List Form :=
  notes.filterMap fun note => if note.1 = .code then some note.2 else none

@[simp] theorem codeOf_data (depth : Nat) (form : Form) (notes : List Note) :
    codeOf ((.data depth, form) :: notes) = codeOf notes := by
  simp [codeOf]

@[simp] theorem codeOf_append (notes more : List Note) :
    codeOf (notes ++ more) = codeOf notes ++ codeOf more := by
  simp [codeOf]

/-- Tokens make up a phrase in a template, and are read in the modes that are noted. -/
inductive Noted : Phrase → List Token → List Form → List Note → Prop where
  | code {front : List Token} {form : Form} :
      Derives (.one .code) front [form] → Noted (.one .code) front [form] [(.code, form)]
  | atom {depth : Nat} {token : Token} {form : Form} :
      token.tag.isAtom = true → Reader.atom token = .ok form →
      Noted (.one (.data depth)) [token] [form] [(.data depth, form)]
  | word {depth : Nat} {token : Token} :
      token.tag.keyword?.isSome = true → token.isPrefix = false →
      Noted (.one (.data depth)) [token] [.leaf ⟨.symbol, token.payload, token.place⟩]
        [(.data depth, .leaf ⟨.symbol, token.payload, token.place⟩)]
  | empty {depth : Nat} {opener closer : Token} :
      opener.tag = .lparen → closer.tag = .rparen →
      Noted (.one (.data depth)) [opener, closer] [.compoundAt .empty [] opener]
        [(.data depth, .compoundAt .empty [] opener)]
  | mark {depth : Nat} {inner : Mode} {token : Token} {front : List Token} {quoted : Form}
      {notes : List Note} :
      token.isPrefix = true → (Mode.data depth).inside? token.tag = some inner →
      Noted (.one inner) front [quoted] notes →
      Noted (.one (.data depth)) (token :: front) [.compoundAt token.tag [quoted] token]
        ((.data depth, .compoundAt token.tag [quoted] token) :: notes)
  | quotation {depth : Nat} {inner : Mode} {opener head closer : Token} {front : List Token}
      {quoted : Form} {notes : List Note} :
      opener.tag = .lparen → head.tag.isQuoting = true → head.isPrefix = false →
      (Mode.data depth).inside? head.tag = some inner → Noted (.one inner) front [quoted] notes →
      closer.tag = .rparen →
      Noted (.one (.data depth)) (opener :: head :: (front ++ [closer]))
        [.compoundAt head.tag [quoted] head]
        ((.data depth, .compoundAt head.tag [quoted] head) :: notes)
  | list {depth : Nat} {opener head : Token} {front rest : List Token} {first : Form}
      {others : List Form} {notes more : List Note} :
      opener.tag = .lparen → ¬ (head.tag.isQuoting = true ∧ head.isPrefix = false) →
      Noted (.one (.data depth)) (head :: front) [first] notes →
      Noted (.items (.data depth) true) rest others more →
      Noted (.one (.data depth)) (opener :: head :: (front ++ rest))
        [.compoundAt .list (first :: others) opener]
        ((.data depth, .compoundAt .list (first :: others) opener) :: (notes ++ more))
  | close {depth : Nat} {closer : Token} :
      closer.tag = .rparen → Noted (.items (.data depth) true) [closer] [] []
  | dotted {depth : Nat} {dot closer : Token} {front : List Token} {tail : Form}
      {notes : List Note} :
      dot.tag = .dot → Noted (.one (.data depth)) front [tail] notes → closer.tag = .rparen →
      Noted (.items (.data depth) true) (dot :: (front ++ [closer]))
        [.compoundAt .dot [tail] dot] notes
  | more {depth : Nat} {front rest : List Token} {first : Form} {others : List Form}
      {notes more : List Note} :
      Noted (.one (.data depth)) front [first] notes →
      Noted (.items (.data depth) true) rest others more →
      Noted (.items (.data depth) true) (front ++ rest) (first :: others) (notes ++ more)

namespace Noted

variable {phrase : Phrase} {front : List Token} {forms : List Form} {notes : List Note}

/-- What is noted follows the grammar. -/
theorem derives (h : Noted phrase front forms notes) : Derives phrase front forms := by
  induction h with
  | code hcode => exact hcode
  | atom hatom hform => exact .atom hatom hform
  | word hkeyword hword => exact .word hkeyword hword
  | empty hopener hcloser => exact .empty hopener hcloser
  | mark hprefix hinside _ ih => exact .mark hprefix hinside ih
  | quotation hopener hquoting hword hinside _ hcloser ih =>
    exact .quotation hopener hquoting hword hinside ih hcloser
  | list hopener hhead _ _ ih ihrest => exact .list hopener hhead ih ihrest
  | close hcloser => exact .close rfl hcloser
  | dotted hdot _ hcloser ih => exact .dotted hdot ih hcloser
  | more _ _ ih ihrest => exact .more ih ihrest

/-- Each form that is noted was read in the mode that is noted, from tokens of the phrase. -/
theorem read_as (h : Noted phrase front forms notes) {mode : Mode} {form : Form}
    (hnote : (mode, form) ∈ notes) :
    ∃ part, part <:+: front ∧ Derives (.one mode) part [form] := by
  have hread := h.derives
  induction h with
  | code _ | atom _ _ | word _ _ | empty _ _ =>
    cases List.mem_singleton.mp hnote
    exact ⟨_, List.infix_rfl, hread⟩
  | @mark _ _ token front _ _ _ _ hquoted ih =>
    rcases List.mem_cons.mp hnote with hnote | hnote
    · cases hnote
      exact ⟨_, List.infix_rfl, hread⟩
    · obtain ⟨part, hpart, hform⟩ := ih hnote hquoted.derives
      exact ⟨part, hpart.trans (List.suffix_cons token front).isInfix, hform⟩
  | @quotation _ _ opener head closer front _ _ _ _ _ _ hquoted _ ih =>
    rcases List.mem_cons.mp hnote with hnote | hnote
    · cases hnote
      exact ⟨_, List.infix_rfl, hread⟩
    · obtain ⟨part, hpart, hform⟩ := ih hnote hquoted.derives
      exact ⟨part, hpart.trans ⟨[opener, head], [closer], by simp⟩, hform⟩
  | @list _ opener head front rest _ _ _ _ _ _ hfirst hrest ih ihrest =>
    rcases List.mem_cons.mp hnote with hnote | hnote
    · cases hnote
      exact ⟨_, List.infix_rfl, hread⟩
    · rcases List.mem_append.mp hnote with hnote | hnote
      · obtain ⟨part, hpart, hform⟩ := ih hnote hfirst.derives
        exact ⟨part, hpart.trans ⟨[opener], rest, by simp⟩, hform⟩
      · obtain ⟨part, hpart, hform⟩ := ihrest hnote hrest.derives
        exact ⟨part, hpart.trans ⟨opener :: head :: front, [], by simp⟩, hform⟩
  | close _ => cases hnote
  | @dotted _ dot closer front _ _ _ htail _ ih =>
    obtain ⟨part, hpart, hform⟩ := ih hnote htail.derives
    exact ⟨part, hpart.trans ⟨[dot], [closer], by simp⟩, hform⟩
  | @more _ front rest _ _ _ _ hfirst hrest ih ihrest =>
    rcases List.mem_append.mp hnote with hnote | hnote
    · obtain ⟨part, hpart, hform⟩ := ih hnote hfirst.derives
      exact ⟨part, hpart.trans (List.prefix_append front rest).isInfix, hform⟩
    · obtain ⟨part, hpart, hform⟩ := ihrest hnote hrest.derives
      exact ⟨part, hpart.trans (List.suffix_append front rest).isInfix, hform⟩

/-- The code of a template comes from parts of the text that follow one another. -/
theorem code_in_order (h : Noted phrase front forms notes) :
    ∃ parts, List.Forall₂ (fun part form => Derives (.one .code) part [form]) parts (codeOf notes) ∧
      parts.flatten.Sublist front := by
  induction h with
  | @code front form hcode => exact ⟨[front], .cons hcode .nil, by simp⟩
  | atom | word | empty | close => exact ⟨[], .nil, List.nil_sublist _⟩
  | @mark _ _ token front _ _ _ _ _ ih =>
    obtain ⟨parts, hparts, hsub⟩ := ih
    exact ⟨parts, by rwa [codeOf_data], hsub.cons token⟩
  | @quotation _ _ opener head closer front _ _ _ _ _ _ _ _ ih =>
    obtain ⟨parts, hparts, hsub⟩ := ih
    have hfront : front.Sublist (front ++ [closer]) := List.sublist_append_left front [closer]
    exact ⟨parts, by rwa [codeOf_data], ((hsub.trans hfront).cons head).cons opener⟩
  | @list _ opener head front rest _ _ _ _ _ _ _ _ ih ihrest =>
    obtain ⟨parts, hparts, hsub⟩ := ih
    obtain ⟨others, hothers, hsubrest⟩ := ihrest
    refine ⟨parts ++ others, ?_, ?_⟩
    · rw [codeOf_data, codeOf_append]
      exact List.rel_append hparts hothers
    · rw [List.flatten_append]
      exact (hsub.append hsubrest).cons opener
  | @dotted _ dot closer front _ _ _ _ _ ih =>
    obtain ⟨parts, hparts, hsub⟩ := ih
    exact ⟨parts, hparts, (hsub.trans (List.sublist_append_left front [closer])).cons dot⟩
  | @more _ front rest _ _ _ _ _ _ ih ihrest =>
    obtain ⟨parts, hparts, hsub⟩ := ih
    obtain ⟨others, hothers, hsubrest⟩ := ihrest
    refine ⟨parts ++ others, ?_, ?_⟩
    · rw [codeOf_append]
      exact List.rel_append hparts hothers
    · rw [List.flatten_append]
      exact hsub.append hsubrest

/-- What is spliced at depth one is code. -/
theorem spliced {form : Form} (h : Noted (.one (.data 1)) front [form] notes)
    (htag : form.tag = .splice) :
    ∃ token quoted, form = ⟨token, [quoted], true⟩ ∧
      notes = [(.data 1, form), (.code, quoted)] := by
  cases h with
  | @atom _ token _ hatom hform =>
    obtain ⟨payload, rfl⟩ := Reader.atom_eq_ok hform
    rw [show token.tag = .splice from htag] at hatom
    cases hatom
  | @mark _ _ token _ quoted _ _ hinside hquoted
  | @quotation _ _ _ token _ _ quoted _ _ _ _ hinside hquoted _ =>
    rw [show token.tag = .splice from htag] at hinside
    cases hinside
    cases hquoted with
    | code _ => exact ⟨token, quoted, Form.compoundAt_self token _, rfl⟩
  | word | empty | list => cases htag

end Noted

/-- Phrases that are part of a template. -/
def Phrase.InTemplate : Phrase → Prop
  | one _ => True
  | items (.data _) true => True
  | _ => False

/-- What the grammar finds in a template is noted. -/
theorem Derives.noted {phrase : Phrase} {front : List Token} {forms : List Form}
    (h : Derives phrase front forms) (hphrase : phrase.InTemplate) :
    ∃ notes, Noted phrase front forms notes := by
  have hread := h
  induction h with
  | @atom mode _ _ hatom hform =>
    cases mode with
    | code => exact ⟨_, .code hread⟩
    | data depth => exact ⟨_, .atom hatom hform⟩
  | @empty mode _ _ hopener hcloser =>
    cases mode with
    | code => exact ⟨_, .code hread⟩
    | data depth => exact ⟨_, .empty hopener hcloser⟩
  | @mark mode _ _ _ _ hprefix hinside hquoted ih =>
    cases mode with
    | code => exact ⟨_, .code hread⟩
    | data depth =>
      obtain ⟨notes, hnotes⟩ := ih trivial hquoted
      exact ⟨_, .mark hprefix hinside hnotes⟩
  | @quotation mode _ _ _ _ _ _ hopener hquoting hword hinside hquoted hcloser ih =>
    cases mode with
    | code => exact ⟨_, .code hread⟩
    | data depth =>
      obtain ⟨notes, hnotes⟩ := ih trivial hquoted
      exact ⟨_, .quotation hopener hquoting hword hinside hnotes hcloser⟩
  | application | headed | literals | lambda | define | cond | letPlain | letNamed =>
    exact ⟨_, .code hread⟩
  | word hkeyword hword => exact ⟨_, .word hkeyword hword⟩
  | list hopener hhead hfirst hrest ih ihrest =>
    obtain ⟨notes, hnotes⟩ := ih trivial hfirst
    obtain ⟨more, hmore⟩ := ihrest trivial hrest
    exact ⟨_, .list hopener hhead hnotes hmore⟩
  | @close phrase _ hrow hcloser =>
    match phrase, hphrase with
    | .one _, _ => cases hrow
    | .items (.data _) true, _ => exact ⟨_, .close hcloser⟩
  | @dotted mode _ _ _ _ hdot htail hcloser ih =>
    cases mode with
    | code => cases hphrase
    | data depth =>
      obtain ⟨notes, hnotes⟩ := ih trivial htail
      exact ⟨_, .dotted hdot hnotes hcloser⟩
  | @more mode dots _ _ _ _ hfirst hrest ih ihrest =>
    match mode, dots, hphrase with
    | .data _, true, _ =>
      obtain ⟨notes, hnotes⟩ := ih trivial hfirst
      obtain ⟨more, hmore⟩ := ihrest trivial hrest
      exact ⟨_, .more hnotes hmore⟩
  | clause | binding => cases hphrase

/-- Forms that are nothing but parts of others. -/
def Tag.isPart : Tag → Bool
  | params | bindings | binding | clause | dot => true
  | _ => false

/-- Where code stands in a form that is read in a mode: in the form itself, in what it quotes, in
its parts, behind its dot, in its clauses, and as the value of a binding. -/
inductive Form.HasCode (code : Form) : Mode → Form → Prop where
  | here : HasCode code .code code
  | quoted {mode inner : Mode} {token : Token} {form : Form} :
      mode.inside? token.tag = some inner → HasCode code inner form → token.tag.isQuoting = true →
      HasCode code mode ⟨token, [form], true⟩
  | part {mode : Mode} {token : Token} {parts : List Form} {form : Form} :
      token.tag.isQuoting = false → form ∈ parts → form.tag.isPart = false →
      HasCode code mode form → HasCode code mode ⟨token, parts, true⟩
  | tail {mode : Mode} {token dot : Token} {parts : List Form} {form : Form} :
      token.tag.isQuoting = false → ⟨dot, [form], true⟩ ∈ parts → dot.tag = .dot →
      HasCode code mode form → HasCode code mode ⟨token, parts, true⟩
  | clause {token : Token} {parts : List Form} {clause form : Form} :
      token.tag.isQuoting = false → clause ∈ parts → clause.tag = .clause → form ∈ clause.parts →
      form.tag.isPart = false → HasCode code .code form → HasCode code .code ⟨token, parts, true⟩
  | bound {token : Token} {parts : List Form} {list binding name form : Form} :
      token.tag.isQuoting = false → list ∈ parts → list.tag = .bindings → binding ∈ list.parts →
      binding.parts = [name, form] → HasCode code .code form →
      HasCode code .code ⟨token, parts, true⟩

/-- Some of the tokens are read as a form, which is code. -/
def Form.ReadAsCode (code : Form) (front : List Token) : Prop :=
  ∃ part, part <:+: front ∧ Derives (.one .code) part [code]

theorem Form.ReadAsCode.within {code : Form} {front others : List Token}
    (h : code.ReadAsCode front) (hsub : front <:+: others) : code.ReadAsCode others := by
  obtain ⟨part, hpart, hcode⟩ := h
  exact ⟨part, hpart.trans hsub, hcode⟩

/-- All code in a part of a form was read as code from some tokens. -/
structure Form.PartRead (code : Form) (mode : Mode) (front : List Token) (part : Form) : Prop where
  whole : part.tag.isPart = false → HasCode code mode part → code.ReadAsCode front
  tail : ∀ {dot form}, part = ⟨dot, [form], true⟩ → dot.tag = .dot → HasCode code mode form →
    code.ReadAsCode front
  clause : part.tag = .clause → ∀ form ∈ part.parts, form.tag.isPart = false →
    HasCode code .code form → code.ReadAsCode front
  bound : part.tag = .bindings → ∀ binding ∈ part.parts, ∀ {name form},
    binding.parts = [name, form] → HasCode code .code form → code.ReadAsCode front

namespace Form

variable {code : Form} {mode : Mode} {front : List Token}

theorem PartRead.within {others : List Token} {part : Form}
    (h : PartRead code mode front part) (hsub : front <:+: others) :
    PartRead code mode others part where
  whole htag hcode := (h.whole htag hcode).within hsub
  tail hpart hdot hcode := (h.tail hpart hdot hcode).within hsub
  clause htag form hform hpart hcode := (h.clause htag form hform hpart hcode).within hsub
  bound htag binding hbinding _ _ hparts hcode :=
    (h.bound htag binding hbinding hparts hcode).within hsub

/-- A form that can stand by itself. -/
theorem partRead_whole {part : Form} (htag : part.tag.isPart = false)
    (h : HasCode code mode part → code.ReadAsCode front) : PartRead code mode front part where
  whole _ := h
  tail hpart hdot := by
    subst hpart
    rw [Form.tag, hdot] at htag
    cases htag
  clause hclause := by
    rw [hclause] at htag
    cases htag
  bound hbindings := by
    rw [hbindings] at htag
    cases htag

/-- A form that quotes nothing has code where it is code itself, or in its parts. -/
theorem HasCode.read_of_parts {token : Token} {parts : List Form}
    (h : HasCode code mode ⟨token, parts, true⟩) (hquoting : token.tag.isQuoting = false)
    (hself : mode = .code → Derives (.one .code) front [⟨token, parts, true⟩])
    (hparts : ∀ part ∈ parts, PartRead code mode front part) : code.ReadAsCode front := by
  cases h with
  | here => exact ⟨front, List.infix_rfl, hself rfl⟩
  | quoted _ _ htag => cases htag.symm.trans hquoting
  | part _ hpart htag hcode => exact (hparts _ hpart).whole htag hcode
  | tail _ hpart hdot hcode => exact (hparts _ hpart).tail rfl hdot hcode
  | clause _ hclause htag hform hpart hcode =>
    exact (hparts _ hclause).clause htag _ hform hpart hcode
  | bound _ hlist htag hbinding hbound hcode =>
    exact (hparts _ hlist).bound htag _ hbinding hbound hcode

/-- A form in parentheses that quotes nothing. -/
theorem partRead_compound {token : Token} {parts : List Form}
    (htag : (token.tag.isQuoting || token.tag.isPart) = false)
    (hself : mode = .code → Derives (.one .code) front [⟨token, parts, true⟩])
    (hparts : ∀ part ∈ parts, PartRead code mode front part) :
    PartRead code mode front ⟨token, parts, true⟩ := by
  obtain ⟨hquoting, hpart⟩ := Bool.or_eq_false_iff.mp htag
  exact partRead_whole hpart fun hcode => hcode.read_of_parts hquoting hself hparts

theorem partRead_quoting {inner : Mode} {token : Token} {quoted : Form}
    (hquoting : token.tag.isQuoting = true) (hinside : mode.inside? token.tag = some inner)
    (hself : mode = .code → Derives (.one .code) front [⟨token, [quoted], true⟩])
    (hquoted : HasCode code inner quoted → code.ReadAsCode front) :
    PartRead code mode front ⟨token, [quoted], true⟩ := by
  refine partRead_whole ?_ fun hcode => ?_
  · change token.tag.isPart = false
    obtain htag | htag | htag | htag := Tag.isQuoting_cases hquoting <;> rw [htag] <;> rfl
  · cases hcode with
    | here => exact ⟨front, List.infix_rfl, hself rfl⟩
    | quoted hinside' hcode _ =>
      cases hinside.symm.trans hinside'
      exact hquoted hcode
    | part htag | tail htag | clause htag | bound htag => cases hquoting.symm.trans htag

theorem partRead_leaf {token : Token} (htag : token.tag.isPart = false)
    (hself : mode = .code → Derives (.one .code) front [leaf token]) :
    PartRead code mode front (leaf token) := by
  refine partRead_whole htag fun hcode => ?_
  cases hcode with
  | here => exact ⟨front, List.infix_rfl, hself rfl⟩

/-- A row of parts that hold no code of their own. -/
theorem partRead_names {names : List Token} (opener : Token) :
    PartRead code mode front (.compoundAt .params (names.map .leaf) opener) where
  whole htag := by cases htag
  tail hpart hdot := by cases (congrArg Form.tag hpart).trans hdot
  clause htag := by cases htag
  bound htag := by cases htag

theorem partRead_clause {items : List Form} (opener : Token)
    (hitems : ∀ item ∈ items, item.tag.isPart = false → HasCode code .code item →
      code.ReadAsCode front) :
    PartRead code .code front (.compoundAt .clause items opener) where
  whole htag := by cases htag
  tail hpart hdot := by cases (congrArg Form.tag hpart).trans hdot
  clause _ := hitems
  bound htag := by cases htag

theorem partRead_bindings {bindings : List Form} (opener : Token)
    (hbindings : ∀ binding ∈ bindings, ∀ {name form}, binding.parts = [name, form] →
      HasCode code .code form → code.ReadAsCode front) :
    PartRead code .code front (.compoundAt .bindings bindings opener) where
  whole htag := by cases htag
  tail hpart hdot := by cases (congrArg Form.tag hpart).trans hdot
  clause htag := by cases htag
  bound _ := hbindings

theorem partRead_dotted {dot : Token} {last : Form}
    (hlast : HasCode code mode last → code.ReadAsCode front) :
    PartRead code mode front (.compoundAt .dot [last] dot) where
  whole htag := by cases htag
  tail hpart _ hcode := by
    cases hpart
    exact hlast hcode
  clause htag := by cases htag
  bound htag := by cases htag

end Form

/-- What the code of a phrase was read from. -/
def Phrase.CodeRead (code : Form) (front : List Token) : Phrase → List Form → Prop
  | one mode, forms | items mode _, forms => ∀ form ∈ forms, Form.PartRead code mode front form
  | clauses, forms => ∀ form ∈ forms, Form.PartRead code .code front form
  | bindings, forms => ∀ binding ∈ forms, ∀ {name form}, binding.parts = [name, form] →
      Form.HasCode code .code form → code.ReadAsCode front

theorem Derives.of_symbol {name : Token} (h : name.tag = .symbol) :
    Derives (.one .code) [name] [.leaf name] := by
  refine .atom (by rw [h]; rfl) ?_
  obtain ⟨_, payload, place⟩ := name
  cases h
  rfl

theorem Derives.isPart_of_one {mode : Mode} {front : List Token} {form : Form}
    (h : Derives (.one mode) front [form]) : form.tag.isPart = false := by
  cases h with
  | @atom _ token _ hatom hform =>
    obtain ⟨payload, rfl⟩ := Reader.atom_eq_ok hform
    change token.tag.isPart = false
    cases htag : token.tag <;> simp [htag, Tag.isAtom, Tag.isPart] at hatom ⊢
  | @mark _ _ token _ _ hprefix _ _ =>
    change token.tag.isPart = false
    obtain htag | htag | htag | htag :=
      Tag.isQuoting_cases (Token.isQuoting_of_isPrefix hprefix) <;>
      rw [htag] <;> rfl
  | @quotation _ _ _ head _ _ _ _ hquoting _ _ _ _ =>
    change head.tag.isPart = false
    obtain htag | htag | htag | htag := Tag.isQuoting_cases hquoting <;> rw [htag] <;> rfl
  | @headed _ head _ _ _ hhead _ | @letPlain _ head _ _ _ _ _ _ hhead _ _ _ _ =>
    change head.tag.isPart = false
    obtain htag | htag | htag := hhead <;> rw [htag] <;> rfl
  | @lambda _ head _ _ _ _ _ _ _ hhead | @define _ head _ _ _ _ hhead
  | @cond _ head _ _ _ hhead | @letNamed _ head _ _ _ _ _ _ _ hhead =>
    change head.tag.isPart = false
    rw [hhead]
    rfl
  | empty | application | literals | word | list => rfl

theorem Derives.tag_ne_dot {mode : Mode} {front : List Token} {form : Form}
    (h : Derives (.one mode) front [form]) : form.tag ≠ .dot := by
  intro htag
  have hpart := h.isPart_of_one
  rw [htag] at hpart
  cases hpart

/-- All code in a form was read as code. -/
theorem Derives.codeRead {phrase : Phrase} {front : List Token} {forms : List Form}
    (h : Derives phrase front forms) (code : Form) : phrase.CodeRead code front forms := by
  have hread := h
  induction h with
  | @atom mode token form hatom hform =>
    have htag := hread.isPart_of_one
    obtain ⟨payload, rfl⟩ := Reader.atom_eq_ok hform
    exact List.forall_mem_singleton.mpr (Form.partRead_leaf htag fun hcode => hcode ▸ hread)
  | @empty mode opener closer hopener hcloser =>
    exact List.forall_mem_singleton.mpr
      (Form.partRead_compound rfl (fun hcode => hcode ▸ hread) (List.forall_mem_nil _))
  | @mark mode inner token front quoted hprefix hinside hquoted ih =>
    have hpart := List.forall_mem_singleton.mp (ih hquoted)
    rw [Form.compoundAt_self] at hread ⊢
    have hquoting := Token.isQuoting_of_isPrefix hprefix
    refine List.forall_mem_singleton.mpr (Form.partRead_quoting hquoting hinside
      (fun hcode => hcode ▸ hread) fun hcode => ?_)
    exact (hpart.whole hquoted.isPart_of_one hcode).within (List.suffix_cons token front).isInfix
  | @quotation mode inner opener head closer front quoted hopener hquoting hword hinside hquoted
      hcloser ih =>
    have hpart := List.forall_mem_singleton.mp (ih hquoted)
    rw [Form.compoundAt_self] at hread ⊢
    refine List.forall_mem_singleton.mpr (Form.partRead_quoting hquoting
      hinside (fun hcode => hcode ▸ hread) fun hcode => ?_)
    exact (hpart.whole hquoted.isPart_of_one hcode).within ⟨[opener, head], [closer], by simp⟩
  | @application opener head front rest operator arguments hopener hhead hoperator hrest ih
      ihrest =>
    refine List.forall_mem_singleton.mpr (Form.partRead_compound rfl (fun _ => hread)
      (List.forall_mem_cons.mpr ⟨?_, fun argument hargument => ?_⟩))
    · exact (List.forall_mem_singleton.mp (ih hoperator)).within ⟨[opener], rest, by simp⟩
    · exact (ihrest hrest argument hargument).within ⟨opener :: head :: front, [], by simp⟩
  | @headed opener head rest arguments hopener hhead hrest ih =>
    refine List.forall_mem_singleton.mpr (Form.partRead_compound ?_ (fun _ => hread)
      fun argument hargument => ?_)
    · obtain htag | htag | htag := hhead <;> rw [htag] <;> rfl
    · exact (ih hrest argument hargument).within ⟨[opener, head], [], by simp⟩
  | @literals opener head rest first others hopener hliteral hfirst hrest ih =>
    have hatom : head.tag.isAtom = true := by
      cases htag : head.tag <;> rw [htag] at hliteral <;> first | rfl | cases hliteral
    have hleaf : Derives (.one .code) [head] [first] := .atom hatom hfirst
    have htag := hleaf.isPart_of_one
    obtain ⟨payload, rfl⟩ := Reader.atom_eq_ok hfirst
    refine List.forall_mem_singleton.mpr (Form.partRead_compound rfl (fun _ => hread)
      (List.forall_mem_cons.mpr ⟨?_, fun item hitem => ?_⟩))
    · exact (Form.partRead_leaf htag fun _ => hleaf).within ⟨[opener], rest, by simp⟩
    · exact (ih hrest item hitem).within ⟨[opener, head], [], by simp⟩
  | @lambda opener head listOpener closer names rest texts body hopener hhead hlist hsymbols htexts
      hnodup hcloser hbody hne ih =>
    refine List.forall_mem_singleton.mpr (Form.partRead_compound (by rw [hhead]; rfl)
      (fun _ => hread) (List.forall_mem_cons.mpr ⟨Form.partRead_names _, fun form hform => ?_⟩))
    exact (ih hbody form hform).within
      ⟨opener :: head :: listOpener :: (names ++ [closer]), [], by simp⟩
  | @define opener head name rest value hopener hhead hsymbol hvalue ih =>
    have hname := Derives.of_symbol hsymbol
    refine List.forall_mem_singleton.mpr (Form.partRead_compound (by rw [hhead]; rfl)
      (fun _ => hread) (List.forall_mem_cons.mpr ⟨?_, fun form hform => ?_⟩))
    · exact (Form.partRead_leaf (by rw [hsymbol]; rfl) fun _ => hname).within
        ⟨[opener, head], rest, by simp⟩
    · exact (ih hvalue form hform).within ⟨[opener, head, name], [], by simp⟩
  | @cond opener head rest clauses hopener hhead hrest ih =>
    refine List.forall_mem_singleton.mpr (Form.partRead_compound (by rw [hhead]; rfl)
      (fun _ => hread) fun clause hclause => ?_)
    exact (ih hrest clause hclause).within ⟨[opener, head], [], by simp⟩
  | @letPlain opener head listOpener list rest bindings body hopener hhead hlist hbindings hbody hne
      ih ihbody =>
    refine List.forall_mem_singleton.mpr (Form.partRead_compound ?_ (fun _ => hread)
      (List.forall_mem_cons.mpr
        ⟨Form.partRead_bindings _ fun binding hbinding _ _ hparts hcode => ?_,
          fun form hform => ?_⟩))
    · obtain htag | htag | htag := hhead <;> rw [htag] <;> rfl
    · exact (ih hbindings binding hbinding hparts hcode).within
        ⟨[opener, head, listOpener], rest, by simp⟩
    · exact (ihbody hbody form hform).within
        ⟨opener :: head :: listOpener :: list, [], by simp⟩
  | @letNamed opener head name listOpener list rest bindings body hopener hhead hsymbol hlist
      hbindings hbody hne ih ihbody =>
    have hname := Derives.of_symbol hsymbol
    refine List.forall_mem_singleton.mpr (Form.partRead_compound (by rw [hhead]; rfl)
      (fun _ => hread) (List.forall_mem_cons.mpr ⟨?_, List.forall_mem_cons.mpr
        ⟨Form.partRead_bindings _ fun binding hbinding _ _ hparts hcode => ?_,
          fun form hform => ?_⟩⟩))
    · exact (Form.partRead_leaf (by rw [hsymbol]; rfl) fun _ => hname).within
        ⟨[opener, head], listOpener :: (list ++ rest), by simp⟩
    · exact (ih hbindings binding hbinding hparts hcode).within
        ⟨[opener, head, name, listOpener], rest, by simp⟩
    · exact (ihbody hbody form hform).within
        ⟨opener :: head :: name :: listOpener :: list, [], by simp⟩
  | word hkeyword hword =>
    exact List.forall_mem_singleton.mpr (Form.partRead_leaf rfl nofun)
  | @list depth opener head front rest first others hopener hhead hfirst hrest ih ihrest =>
    refine List.forall_mem_singleton.mpr (Form.partRead_compound rfl nofun
      (List.forall_mem_cons.mpr ⟨?_, fun item hitem => ?_⟩))
    · exact (List.forall_mem_singleton.mp (ih hfirst)).within ⟨[opener], rest, by simp⟩
    · exact (ihrest hrest item hitem).within ⟨opener :: head :: front, [], by simp⟩
  | @close phrase closer hrow hcloser =>
    cases phrase with
    | one mode => cases hrow
    | items | clauses | bindings => exact nofun
  | @dotted mode dot closer front last hdot hlast hcloser ih =>
    refine List.forall_mem_singleton.mpr (Form.partRead_dotted fun hcode => ?_)
    exact ((List.forall_mem_singleton.mp (ih hlast)).whole hlast.isPart_of_one hcode).within
      ⟨[dot], [closer], by simp⟩
  | @more mode dots front rest first others hfirst hrest ih ihrest =>
    refine List.forall_mem_cons.mpr ⟨?_, fun form hform => ?_⟩
    · exact (List.forall_mem_singleton.mp (ih hfirst)).within
        (List.prefix_append front rest).isInfix
    · exact (ihrest hrest form hform).within (List.suffix_append front rest).isInfix
  | @clause opener front rest items others hopener hitems hne hrest ih ihrest =>
    refine List.forall_mem_cons.mpr
      ⟨Form.partRead_clause _ fun item hitem htag hcode => ?_, fun clause hclause => ?_⟩
    · exact ((ih hitems item hitem).whole htag hcode).within ⟨[opener], rest, by simp⟩
    · exact (ihrest hrest clause hclause).within ⟨opener :: front, [], by simp⟩
  | @binding opener name closer front rest value others hopener hsymbol hvalue hcloser hrest ih
      ihrest =>
    refine List.forall_mem_cons.mpr ⟨fun hparts hcode => ?_, fun binding hbinding => ?_⟩
    · cases hparts
      exact ((List.forall_mem_singleton.mp (ih hvalue)).whole hvalue.isPart_of_one hcode).within
        ⟨[opener, name], closer :: rest, by simp⟩
    · intro _ _ hparts hcode
      exact (ihrest hrest binding hbinding hparts hcode).within
        ⟨opener :: name :: (front ++ [closer]), [], by simp⟩

end TowerLisp
