import CrateLedger.Proofs.Text
import CrateLedger.Text.Punycode

/-!
# Punycode is read back

The encoder of RFC 3492 goes over a text once for each code point in it that is not ASCII, from
small to large. It counts the states that a decoder would go through without inserting anything, and
writes the count where the code point stands.

Main statement: a decoder gives back every text, whatever it holds. The invariant is that the
decoder has inserted exactly what the encoder has handled, and that what the encoder has counted
since is how far the decoder is behind it.
-/

namespace CrateLedger.Punycode

/-! ## Encoding -/

/-- The digit of a value, with letters in either case. -/
def digitChar (capitals : Bool) (d : Nat) : Char :=
  if d < 26 then Char.ofNat ((if capitals then 'A' else 'a').toNat + d)
  else Char.ofNat ('0'.toNat + (d - 26))

theorem threshold_pos (k bias : Nat) : 0 < threshold k bias := by
  unfold threshold
  omega

theorem threshold_le (k bias : Nat) : threshold k bias ≤ 26 := by
  unfold threshold
  omega

/-- The digits of a number, from the weight with a given index on. -/
def integer (capitals : Bool) (bias k q : Nat) : List Char :=
  let t := threshold k bias
  if q < t then [digitChar capitals q]
  else digitChar capitals (t + (q - t) % (36 - t))
    :: integer capitals bias (k + 36) ((q - t) / (36 - t))
termination_by q
decreasing_by
  have hpos := threshold_pos k bias
  have hle : (q - threshold k bias) / (36 - threshold k bias) ≤ q - threshold k bias :=
    Nat.div_le_self _ _
  omega

/-- What an encoder counts. -/
structure Counter where
  /-- The states passed since the last insertion. -/
  delta : Nat
  /-- The bias for the next number. -/
  bias : Nat
  /-- The code points handled. -/
  handled : Nat

namespace Counter

/-- Passes some states. -/
def skip (counter : Counter) (states : Nat) : Counter :=
  { counter with delta := counter.delta + states }

/-- Handles a code point; `basic` have been handled before the first one. -/
def insert (basic : Nat) (counter : Counter) : Counter where
  delta := 0
  bias := adapt counter.delta (counter.handled + 1) (counter.handled == basic)
  handled := counter.handled + 1

end Counter

/-- Writes where a code point stands in a text. -/
def pass (capitals : Bool) (basic n : Nat) (counter : Counter) : Text → List Char × Counter
  | [] => ([], counter)
  | c :: rest =>
    if c.val < n then pass capitals basic n (counter.skip 1) rest
    else if c.val = n then
      let (digits, last) := pass capitals basic n (counter.insert basic) rest
      (integer capitals counter.bias 36 counter.delta ++ digits, last)
    else pass capitals basic n counter rest

theorem le_of_min?_filter {n : Nat} {text : Text} {m : CodePoint}
    (h : (text.filter fun c => n ≤ c.val).min? = some m) : n ≤ m.val :=
  of_decide_eq_true (List.mem_filter.1 (List.min?_mem h)).2

/-- Writes where the code points from one on stand, from small to large. -/
def passes (capitals : Bool) (basic : Nat) (text : Text) (n : Nat) (counter : Counter) :
    List Char :=
  match h : (text.filter fun c => n ≤ c.val).min? with
  | none => []
  | some m =>
    have : n ≤ m.val := le_of_min?_filter h
    let (digits, last) := pass capitals basic m.val
      (counter.skip ((m.val - n) * (counter.handled + 1))) text
    digits ++ passes capitals basic text (m.val + 1) (last.skip 1)
termination_by 0x110000 - n
decreasing_by omega

/-- The ASCII characters of a text. -/
def basicChars (text : Text) : List Char := (text.filter CodePoint.isAscii).map CodePoint.toChar

/-- The digits for the other characters. -/
def digitsOf (capitals : Bool) (text : Text) : List Char :=
  passes capitals (basicChars text).length text 0x80 ⟨0, 72, (basicChars text).length⟩

/-- The encoding of a text. There is a delimiter only behind characters. -/
def encode (capitals : Bool) (text : Text) : List Char :=
  if basicChars text = [] then digitsOf capitals text
  else basicChars text ++ '-' :: digitsOf capitals text

example : encode false "3年B組金八先生" = "3B-ww4c5e180e575a65lsy2b".toList := by decide +kernel

example : encode false "他们为什么不说中文" = "ihqwcrb4cv8a8dqg056pqjye".toList := by
  decide +kernel

/-! ## Numbers -/

theorem digit?_digitChar : ∀ capitals, ∀ d < 36, digit? (digitChar capitals d) = some d := by
  decide +kernel

theorem integerFrom?_digit {capitals : Bool} {bias k weight value d : Nat} (hd : d < 36)
    (rest : List Char) :
    integerFrom? bias k weight value (digitChar capitals d :: rest)
      = if d < threshold k bias then some (value + d * weight, rest)
        else integerFrom? bias (k + 36) (weight * (36 - threshold k bias)) (value + d * weight)
          rest := by
  rw [integerFrom?, digit?_digitChar capitals d hd]
  rfl

theorem digit_lt (k bias q : Nat) :
    threshold k bias + (q - threshold k bias) % (36 - threshold k bias) < 36 := by
  have hle := threshold_le k bias
  have hmod := Nat.mod_lt (q - threshold k bias) (show 0 < 36 - threshold k bias by omega)
  omega

/-- A number is read back, and what is behind its digits is left. -/
theorem integerFrom?_integer (capitals : Bool) (bias k weight value q : Nat) (rest : List Char) :
    integerFrom? bias k weight value (integer capitals bias k q ++ rest)
      = some (value + q * weight, rest) := by
  fun_induction integer capitals bias k q generalizing weight value with
  | case1 k q t hlast =>
    have hle : t ≤ 26 := threshold_le k bias
    rw [List.singleton_append, integerFrom?_digit (by omega), if_pos hlast]
  | case2 k q t hmore ih =>
    have hhigh : ¬ t + (q - t) % (36 - t) < t := by omega
    have hvalue : t + (q - t) % (36 - t) + (q - t) / (36 - t) * (36 - t) = q := by
      rw [Nat.add_assoc, Nat.mod_add_div', Nat.add_sub_cancel' (Nat.le_of_not_lt hmore)]
    rw [List.cons_append, integerFrom?_digit (digit_lt k bias q), if_neg hhigh, ih]
    generalize t + (q - t) % (36 - t) = d at hvalue ⊢
    generalize (q - t) / (36 - t) = more at hvalue ⊢
    obtain rfl := hvalue
    congr 2
    ring

/-- All that is written are digits. -/
theorem isSome_digit?_of_mem_integer {capitals : Bool} {bias k q : Nat} {c : Char}
    (h : c ∈ integer capitals bias k q) : (digit? c).isSome := by
  fun_induction integer capitals bias k q with
  | case1 k q t hlast =>
    have hle : t ≤ 26 := threshold_le k bias
    rw [List.mem_singleton.1 h, digit?_digitChar capitals q (by omega)]
    rfl
  | case2 k q t hmore ih =>
    rcases List.mem_cons.1 h with rfl | h
    · rw [digit?_digitChar capitals _ (digit_lt k bias q)]
      rfl
    · exact ih h

/-! ## Insertions -/

theorem insertIdx_length_append (before behind : Text) (c : CodePoint) :
    (before ++ behind).insertIdx before.length c = before ++ c :: behind := by
  induction before with
  | nil => rfl
  | cons x before ih => exact congrArg (x :: ·) ih

/-- A number in front of other digits is the next insertion. -/
theorem insertAll?_integer {capitals : Bool} {out : Text} {i n bias delta index : Nat} {first : Bool}
    {m : CodePoint} (rest : List Char) (hle : n ≤ m.val) (hindex : index ≤ out.length)
    (hdelta : i + delta = (m.val - n) * (out.length + 1) + index) :
    insertAll? out i n bias first (integer capitals bias 36 delta ++ rest)
      = insertAll? (out.insertIdx index m) (index + 1) m.val (adapt delta (out.length + 1) first)
        false rest := by
  have hread : integerFrom? bias 36 1 0 (integer capitals bias 36 delta ++ rest)
      = some (delta, rest) := by
    rw [integerFrom?_integer, Nat.zero_add, Nat.mul_one]
  have hquotient : n + (i + delta) / (out.length + 1) = m.val := by
    rw [hdelta, Nat.mul_comm, Nat.mul_add_div (Nat.succ_pos _), Nat.div_eq_of_lt (by omega)]
    omega
  have hremainder : (i + delta) % (out.length + 1) = index := by
    rw [hdelta, Nat.mul_comm, Nat.mul_add_mod, Nat.mod_eq_of_lt (by omega)]
  generalize integer capitals bias 36 delta ++ rest = digits at hread ⊢
  cases digits with
  | nil => cases hread
  | cons c digits =>
    rw [insertAll?]
    split
    · rename_i hnone
      rw [hread] at hnone
      cases hnone
    · rename_i hsome
      rw [hread] at hsome
      cases hsome
      simp only [hquotient, hremainder]
      rw [dif_pos m.isLt]

/-! ## Decoder and encoder -/

/-- A decoder goes on with the bias of an encoder. -/
def resume (basic : Nat) (counter : Counter) (out : Text) (i n : Nat) (digits : List Char) :
    Option Text :=
  insertAll? out i n counter.bias (counter.handled == basic) digits

/-- A decoder has read all that an encoder has written, which is on its pass for `m` and has some of
the text before it and some behind. -/
structure InStep (basic m : Nat) (before behind : Text) (counter : Counter) (out : Text)
    (i n : Nat) : Prop where
  /-- What the encoder has handled has been inserted. -/
  out_eq : out = before.filter (·.val ≤ m) ++ behind.filter (·.val < m)
  handled : counter.handled = out.length
  basic_le : basic ≤ out.length
  n_le : n ≤ m
  /-- What the encoder has counted leads from where the decoder is to where the encoder is. -/
  distance : n * (out.length + 1) + i + counter.delta
    = m * (out.length + 1) + (before.filter (·.val ≤ m)).length

section

variable {basic m n i d : Nat} {before behind text out : Text} {c : CodePoint} {counter : Counter}

theorem filter_le_concat (before : Text) (hc : c.val ≤ m) :
    (before ++ [c]).filter (·.val ≤ m) = before.filter (·.val ≤ m) ++ [c] := by
  simp [List.filter_append, hc]

namespace InStep

/-- The decoder passes a code point that has been inserted. -/
theorem below (h : InStep basic m before (c :: behind) counter out i n) (hc : c.val < m) :
    InStep basic m (before ++ [c]) behind (counter.skip 1) out i n := by
  have hbefore := filter_le_concat before hc.le
  refine ⟨?_, h.handled, h.basic_le, h.n_le, ?_⟩
  · rw [hbefore, h.out_eq]
    simp [hc]
  · have hdistance := h.distance
    rw [hbefore, List.length_append, List.length_singleton]
    show n * (out.length + 1) + i + (counter.delta + 1) = _
    omega

/-- A code point that comes later is not there yet. -/
theorem above (h : InStep basic m before (c :: behind) counter out i n) (hc : m < c.val) :
    InStep basic m (before ++ [c]) behind counter out i n := by
  have hbefore : (before ++ [c]).filter (·.val ≤ m) = before.filter (·.val ≤ m) := by
    simp [List.filter_append, hc]
  refine ⟨?_, h.handled, h.basic_le, h.n_le, ?_⟩
  · rw [hbefore, h.out_eq]
    simp [hc.le]
  · rw [hbefore]
    exact h.distance

/-- The states to go are whole rounds for the code points between, and then those before. -/
theorem states_to_go (h : InStep basic m before behind counter out i n) :
    i + counter.delta = (m - n) * (out.length + 1) + (before.filter (·.val ≤ m)).length := by
  have hdistance := h.distance
  have hrounds := Nat.mul_le_mul_right (out.length + 1) h.n_le
  rw [Nat.sub_mul]
  omega

/-- A code point whose place is written is inserted there. -/
theorem insert (h : InStep basic m before (c :: behind) counter out i n) (hc : c.val = m)
    (capitals : Bool) (rest : List Char) :
    ∃ out' i', resume basic counter out i n (integer capitals counter.bias 36 counter.delta ++ rest)
        = resume basic (counter.insert basic) out' i' m rest ∧
      InStep basic m (before ++ [c]) behind (counter.insert basic) out' i' m := by
  have hbefore := filter_le_concat before hc.le
  have hout : out = before.filter (·.val ≤ m) ++ behind.filter (·.val < m) := by
    rw [h.out_eq]
    simp [hc]
  have hinserted : out.insertIdx (before.filter (·.val ≤ m)).length c
      = (before ++ [c]).filter (·.val ≤ m) ++ behind.filter (·.val < m) := by
    rw [hbefore, hout, List.append_assoc]
    exact insertIdx_length_append _ _ c
  have hindex : (before.filter (·.val ≤ m)).length ≤ out.length := by
    rw [hout, List.length_append]
    omega
  have hlength : (out.insertIdx (before.filter (·.val ≤ m)).length c).length = out.length + 1 :=
    List.length_insertIdx_of_le_length hindex c
  have hmore : ((counter.insert basic).handled == basic) = false := by
    have hle := h.basic_le
    have hhandled := h.handled
    show (counter.handled + 1 == basic) = false
    rw [beq_eq_false_iff_ne]
    omega
  have hdelta : i + counter.delta
      = (c.val - n) * (out.length + 1) + (before.filter (·.val ≤ m)).length := hc ▸ h.states_to_go
  refine ⟨_, (before.filter (·.val ≤ m)).length + 1, ?_, hinserted, ?_, ?_, le_rfl, ?_⟩
  · unfold resume
    rw [insertAll?_integer rest (hc ▸ h.n_le) hindex hdelta, hmore, hc, ← h.handled]
    rfl
  · rw [hlength, ← h.handled]
    rfl
  · rw [hlength]
    exact Nat.le_succ_of_le h.basic_le
  · rw [hlength, hbefore, List.length_append]
    rfl

/-- After a pass, the next one is for the next code point. -/
theorem next (h : InStep basic m text [] counter out i n) :
    InStep basic (m + 1) [] text (counter.skip 1) out i n := by
  have hout : out = text.filter (·.val ≤ m) := by
    rw [h.out_eq]
    simp
  refine ⟨?_, h.handled, h.basic_le, Nat.le_succ_of_le h.n_le, ?_⟩
  · rw [hout]
    simp
  · have hdistance := h.distance
    rw [← hout] at hdistance
    show n * (out.length + 1) + i + (counter.delta + 1) = (m + 1) * (out.length + 1) + 0
    rw [Nat.succ_mul]
    omega

/-- Passes on which nothing would be inserted can be left out. -/
theorem jump (h : InStep basic n [] text counter out i d) (hm : n ≤ m)
    (hnone : ∀ c ∈ text, n ≤ c.val → m ≤ c.val) :
    InStep basic m [] text (counter.skip ((m - n) * (counter.handled + 1))) out i d := by
  have hsame : text.filter (·.val < n) = text.filter (·.val < m) := by
    refine List.filter_congr fun c hc => decide_eq_decide.2 ?_
    have := hnone c hc
    omega
  refine ⟨?_, h.handled, h.basic_le, h.n_le.trans hm, ?_⟩
  · rw [h.out_eq, hsame]
    rfl
  · have hdistance := h.distance
    show d * (out.length + 1) + i + (counter.delta + (m - n) * (counter.handled + 1))
      = m * (out.length + 1) + 0
    rw [h.handled, Nat.sub_mul]
    have := Nat.mul_le_mul_right (out.length + 1) hm
    rw [List.filter_nil, List.length_nil] at hdistance
    omega

end InStep

/-- A pass keeps decoder and encoder in step. -/
theorem resume_pass (h : InStep basic m before behind counter out i n) (capitals : Bool)
    (rest : List Char) :
    ∃ out' i' n', resume basic counter out i n ((pass capitals basic m counter behind).1 ++ rest)
        = resume basic (pass capitals basic m counter behind).2 out' i' n' rest ∧
      InStep basic m (before ++ behind) [] (pass capitals basic m counter behind).2 out' i' n' := by
  -- Along the pass code points go over from `behind` to `before`, and decoder and encoder move on.
  induction behind generalizing before counter out i n with
  | nil =>
    rw [List.append_nil]
    exact ⟨out, i, n, rfl, h⟩
  | cons c behind ih =>
    rw [List.append_cons]
    unfold pass
    rcases Nat.lt_trichotomy c.val m with hc | hc | hc
    · rw [if_pos hc]
      exact ih (h.below hc)
    · obtain ⟨out', i', hread, hnext⟩ := h.insert hc capitals
        ((pass capitals basic m (counter.insert basic) behind).1 ++ rest)
      rw [if_neg hc.not_lt, if_pos hc, List.append_assoc, hread]
      exact ih hnext
    · rw [if_neg hc.not_gt, if_neg hc.ne']
      exact ih (h.above hc)

/-- A decoder that is in step before a pass reads the whole text. -/
theorem resume_passes (h : InStep basic n [] text counter out i d) (capitals : Bool) :
    resume basic counter out i d (passes capitals basic text n counter) = some text := by
  fun_induction passes capitals basic text n counter generalizing out i d with
  | case1 n counter hnone =>
    -- Nothing is left to insert, so what is below `n` is the whole text.
    have htext : text.filter (·.val < n) = text := by
      rw [List.filter_eq_self]
      intro c hc
      have hfilter := List.filter_eq_nil_iff.1 (List.min?_eq_none_iff.1 hnone) c hc
      rw [decide_eq_true_eq] at hfilter ⊢
      omega
    rw [resume, insertAll?, h.out_eq, htext]
    rfl
  | case2 n counter m hm hle digits last hpass ih =>
    have hleast : ∀ c ∈ text, n ≤ c.val → m.val ≤ c.val := fun c hc hle =>
      (List.min?_eq_some_iff.1 hm).2 c (List.mem_filter.2 ⟨hc, decide_eq_true hle⟩)
    obtain ⟨out', i', n', hread, hend⟩ := resume_pass (h.jump hle hleast) capitals
      (passes capitals basic text (m.val + 1) (last.skip 1))
    rw [hpass] at hread hend
    exact hread.trans (ih hend.next)

end

/-! ## Texts -/

theorem isSome_digit?_of_mem_pass {capitals : Bool} {basic n : Nat} {counter : Counter}
    {text : Text} {x : Char} (h : x ∈ (pass capitals basic n counter text).1) :
    (digit? x).isSome := by
  induction text generalizing counter with
  | nil => cases h
  | cons c text ih =>
    unfold pass at h
    by_cases hbelow : c.val < n
    · rw [if_pos hbelow] at h
      exact ih h
    rw [if_neg hbelow] at h
    by_cases hsame : c.val = n
    · rw [if_pos hsame] at h
      rcases List.mem_append.1 h with h | h
      · exact isSome_digit?_of_mem_integer h
      · exact ih h
    · rw [if_neg hsame] at h
      exact ih h

theorem isSome_digit?_of_mem_passes {capitals : Bool} {basic n : Nat} {counter : Counter}
    {text : Text} {x : Char} (h : x ∈ passes capitals basic text n counter) :
    (digit? x).isSome := by
  fun_induction passes capitals basic text n counter with
  | case1 => cases h
  | case2 n counter m hm hle digits last hpass ih =>
    have hdigits : (pass capitals basic m.val _ text).1 = digits := congrArg Prod.fst hpass
    rcases List.mem_append.1 h with h | h
    · rw [← hdigits] at h
      exact isSome_digit?_of_mem_pass h
    · exact ih h

/-- What is no digit does not stand among the digits of a text. -/
theorem not_mem_digitsOf {x : Char} (hx : digit? x = none) (capitals : Bool) (text : Text) :
    x ∉ digitsOf capitals text := by
  intro h
  have hdigit := isSome_digit?_of_mem_passes h
  rw [hx] at hdigit
  cases hdigit

theorem splitLast_of_not_mem {delimiter : Char} {s : List Char} (h : delimiter ∉ s) :
    splitLast delimiter s = none := if_neg h

/-- The last delimiter is the one behind which there is none. -/
theorem splitLast_append {delimiter : Char} {digits : List Char} (h : delimiter ∉ digits)
    (basic : List Char) :
    splitLast delimiter (basic ++ delimiter :: digits) = some (basic, digits) := by
  have htail : (basic ++ delimiter :: digits).reverse.takeWhile (· ≠ delimiter)
      = digits.reverse := by
    rw [List.reverse_append, List.reverse_cons, List.append_assoc, List.singleton_append]
    exact (span_ne_append (mt List.mem_reverse.1 h) basic.reverse).1
  have hmem : delimiter ∈ basic ++ delimiter :: digits :=
    List.mem_append_right _ List.mem_cons_self
  have hlength : (basic ++ delimiter :: digits).length - digits.length - 1 = basic.length := by
    rw [List.length_append, List.length_cons]
    omega
  unfold splitLast
  rw [htail, List.reverse_reverse, if_pos hmem]
  show some (List.take ((basic ++ delimiter :: digits).length - digits.length - 1) _, digits) = _
  rw [hlength, List.take_left]

theorem ofChars_basicChars (text : Text) :
    Text.ofChars (basicChars text) = text.filter CodePoint.isAscii := by
  have hchars : Text.asciiChars? (text.filter CodePoint.isAscii) = some (basicChars text) :=
    if_pos (List.all_eq_true.2 fun c hc => (List.mem_filter.1 hc).2)
  exact (Text.asciiChars?_eq_some hchars).1.symm

/-- A decoder that starts with the ASCII characters of a text reads its digits as the text. -/
theorem insertAll?_digitsOf (capitals : Bool) (text : Text) :
    insertAll? (Text.ofChars (basicChars text)) 0 0x80 72 true (digitsOf capitals text)
      = some text := by
  have hlength : (basicChars text).length = (Text.ofChars (basicChars text)).length :=
    (List.length_map _).symm
  have hstart : InStep (basicChars text).length 0x80 [] text ⟨0, 72, (basicChars text).length⟩
      (Text.ofChars (basicChars text)) 0 0x80 :=
    ⟨ofChars_basicChars text, hlength, hlength.le, le_rfl, rfl⟩
  have hread := resume_passes hstart capitals
  rwa [resume, beq_self_eq_true] at hread

/-- **Punycode is read back.** Every text is decoded from its encoding, with surrogates and
delimiters of its own, and in either case of the digits. -/
theorem decode?_encode (capitals : Bool) (text : Text) :
    decode? (encode capitals text) = some text := by
  have hdigits : '-' ∉ digitsOf capitals text := not_mem_digitsOf rfl capitals text
  have hread := insertAll?_digitsOf capitals text
  unfold decode? encode
  by_cases hbasic : basicChars text = []
  · rw [if_pos hbasic, splitLast_of_not_mem hdigits]
    rwa [hbasic] at hread
  · rw [if_neg hbasic, splitLast_append hdigits]
    exact hread

end CrateLedger.Punycode
