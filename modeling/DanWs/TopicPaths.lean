import DanWs.ClientTopics

namespace DanWs.TopicPaths

open DanWs.ClientTopics
open DanWs.KeyPaths
open DanWs.Strings
open DanWs.TopicParsing
open DanWs.WireTypes

/-- A parameter key with which a path ends in `.name`. -/
def LooksLikeName (paramKey : StdString) : Prop :=
  paramKey = str "name" ∨ str ".name" <:+ paramKey

instance (paramKey : StdString) : Decidable (LooksLikeName paramKey) :=
  inferInstanceAs (Decidable (_ ∨ _))

theorem not_mem_decimal {b : UInt8} (h : isDigit b = false) (n : Nat) : b ∉ decimal n := by
  intro hmem
  rw [isDigit_of_mem_decimal hmem] at h
  cases h

theorem ofDigits_topicPath (index : Nat) (rest : StdString) :
    ofDigits (((str "topic." ++ decimal index ++ 0x2E :: rest).drop 6).takeWhile isDigit) =
      index := by
  have hdrop : (str "topic." ++ decimal index ++ 0x2E :: rest).drop 6 =
      decimal index ++ 0x2E :: rest := by
    rw [List.append_assoc]
    rfl
  rw [hdrop, takeWhile_isDigit_decimal_append, ofDigits_decimal]
  rintro b ⟨⟩
  decide

/-- Neither space nor sign stands in front of the digits. Whatever stands behind
them is ignored. -/
theorem stoi_of_unsigned {s : StdString}
    (h : ∀ b ∈ s, isSpace b = false ∧ b ≠ 0x2D ∧ b ≠ 0x2B) :
    stoi s =
      if s.takeWhile isDigit = [] then .error .invalidArgument
      else if 2 ^ 31 ≤ ofDigits (s.takeWhile isDigit) then .error .outOfRange
      else .ok (ofDigits (s.takeWhile isDigit)) := by
  have htext : s.dropWhile isSpace = s := by
    cases s with
    | nil => rfl
    | cons b rest =>
        exact List.dropWhile_cons_of_neg (by simp [(h b List.mem_cons_self).1])
  rw [stoi, htext]
  split
  next negative digits heq =>
    have hpair : (negative, digits) = (false, s.takeWhile isDigit) := by
      rw [← heq]
      split
      · exact absurd rfl (h _ List.mem_cons_self).2.1
      · exact absurd rfl (h _ List.mem_cons_self).2.2
      · rfl
    obtain ⟨rfl, rfl⟩ := Prod.mk.inj hpair
    simp only [Bool.false_eq_true, if_false]
    congr 1
    refine if_congr ?_ rfl rfl
    omega

theorem unsigned_of_isKeyChar {b : UInt8} (hb : isKeyChar b) :
    isSpace b = false ∧ b ≠ 0x2D ∧ b ≠ 0x2B := by
  rw [isKeyChar] at hb
  refine ⟨?_, ?_, ?_⟩
  · by_contra hspace
    rw [Bool.not_eq_false, isSpace] at hspace
    simp only [Bool.or_eq_true, Bool.and_eq_true, decide_eq_true_eq, beq_iff_eq,
      UInt8.le_iff_toNat_le] at hb hspace
    rcases hspace with rfl | hspace
    · revert hb
      decide
    · have hlow : b.toNat ≤ 13 := hspace.2
      rcases hb with ((hb | hb) | hb) | rfl
      · exact absurd (hb.1.trans hlow) (by decide)
      · exact absurd (hb.1.trans hlow) (by decide)
      · exact absurd (hb.1.trans hlow) (by decide)
      · exact absurd hlow (by decide)
  · rintro rfl
    revert hb
    decide
  · rintro rfl
    revert hb
    decide

theorem isKeyChar_of_mem_decimal {index : Nat} {b : UInt8} (h : b ∈ decimal index) :
    isKeyChar b := by
  have hdigit := isDigit_of_mem_decimal h
  rw [isDigit] at hdigit
  rw [isKeyChar, hdigit]
  simp

theorem stoi_decimal {index : Nat} (h : index < 2 ^ 31) : stoi (decimal index) = .ok index := by
  have htake := takeWhile_isDigit_decimal_append index [] (by simp)
  rw [List.append_nil] at htake
  rw [stoi_of_unsigned fun b hb => unsigned_of_isKeyChar (isKeyChar_of_mem_decimal hb), htake,
    if_neg (decimal_ne_nil index), ofDigits_decimal, if_neg (by omega)]

theorem nameIndex_eq_none {path : StdString} (h : ¬ str ".name" <:+ path) :
    nameIndex path = none := by
  rw [nameIndex]
  split
  · next hpath =>
      split
      · next namePos hfind =>
          rw [if_neg]
          rintro rfl
          have hlength : (str ".name").length = 5 := rfl
          exact h ((rfind_eq_end_iff (by decide) (by omega)).mp hfind)
      · rfl
  · rfl

theorem nameIndex_ne_none_of_paramIndex {path idxStr paramKey : StdString}
    (h : paramIndex path = some (idxStr, paramKey)) (hlooks : LooksLikeName paramKey) :
    nameIndex path ≠ none := by
  rw [paramIndex] at h
  split at h
  case isFalse => cases h
  case isTrue htopic =>
    split at h
    case h_2 => cases h
    case h_1 paramPos hparam =>
      obtain ⟨_, hkey⟩ := Prod.mk.inj (Option.some.inj h)
      have hsplit : path = path.take paramPos ++ str ".param." ++ paramKey := by
        rw [← hkey]
        exact eq_of_find hparam
      have hsuffix : str ".name" <:+ path := by
        rw [hsplit, List.append_assoc]
        refine List.IsSuffix.trans ?_ (List.suffix_append _ _)
        rcases hlooks with rfl | hlooks
        · exact ⟨str ".param", rfl⟩
        · exact hlooks.trans (List.suffix_append _ _)
      have hlength : 7 ≤ path.length := by
        rw [hsplit, List.length_append, List.length_append]
        change 7 ≤ _ + 7 + _
        omega
      have hname : (str ".name").length = 5 := rfl
      rw [nameIndex, if_pos ⟨htopic, by omega⟩,
        (rfind_eq_end_iff (by decide) (by omega)).mpr hsuffix]
      dsimp only
      rw [hname, if_pos rfl]
      exact Option.some_ne_none _

theorem nameIndex_append (idxStr : StdString) :
    nameIndex (str "topic." ++ idxStr ++ str ".name") = some idxStr := by
  have hlength : (str "topic." ++ idxStr ++ str ".name").length = idxStr.length + 11 := by
    rw [List.length_append, List.length_append]
    change 6 + idxStr.length + 5 = _
    omega
  have hstart : str "topic." <+: str "topic." ++ idxStr ++ str ".name" :=
    (List.prefix_append _ _).trans (List.prefix_append _ _)
  have hfind : rfind (str ".name") (str "topic." ++ idxStr ++ str ".name") =
      some (idxStr.length + 6) := by
    rw [rfind_append_self _ _ (by decide), List.length_append]
    exact congrArg some (Nat.add_comm 6 idxStr.length)
  rw [nameIndex, if_pos ⟨find_eq_zero_iff.mpr hstart, by omega⟩, hfind]
  dsimp only
  rw [if_pos (by omega), substr, sizeSub, if_pos (by omega), Nat.add_sub_cancel, List.append_assoc]
  exact congrArg some List.take_left

theorem nameIndex_namePath (index : Nat) : nameIndex (namePath index) = some (decimal index) :=
  nameIndex_append (decimal index)

theorem checkKeyPath_namePath {index : Nat} (h : index < 10000) :
    checkKeyPath (namePath index) = .ok () := by
  have hmatch : matchSegments false (namePath index) = true := by
    rw [namePath, List.append_assoc]
    change matchSegments false (str "topic" ++ 0x2E :: (decimal index ++ str ".name")) = true
    have htopic : ∀ b ∈ str "topic", isKeyChar b := List.all_eq_true.mp (by decide)
    rw [matchSegments_append (by decide) htopic]
    change matchSegments false (decimal index ++ str ".name") = true
    rw [matchSegments_append (decimal_ne_nil index) fun b hb => isKeyChar_of_mem_decimal hb]
    decide
  have hlength : (namePath index).length ≤ maxKeyPathBytes := by
    have hdigits := length_decimal_le (k := 4) (by decide) h
    rw [namePath, List.length_append, List.length_append]
    change 6 + _ + 5 ≤ 200
    omega
  have hne : namePath index ≠ [] := List.append_ne_nil_of_right_ne_nil _ (by decide)
  rw [checkKeyPath, if_neg hne, if_neg (by simp [hmatch]), if_neg (by omega)]

theorem name_suffix_paramPath_iff (index : Nat) (paramKey : StdString) :
    str ".name" <:+ paramPath index paramKey ↔ LooksLikeName paramKey := by
  have hreverse : str ".name" <:+ paramPath index paramKey ↔
      [0x65, 0x6D, 0x61, 0x6E, 0x2E] <+:
        paramKey.reverse ++ (str ".param.").reverse ++ (str "topic." ++ decimal index).reverse := by
    rw [← List.reverse_prefix, paramPath, List.reverse_append, List.reverse_append]
    simp only [List.append_assoc]
    rfl
  have hlooks : LooksLikeName paramKey ↔ paramKey.reverse = [0x65, 0x6D, 0x61, 0x6E] ∨
      [0x65, 0x6D, 0x61, 0x6E, 0x2E] <+: paramKey.reverse := by
    rw [LooksLikeName, ← List.reverse_prefix, ← List.reverse_inj]
    rfl
  rw [hreverse, hlooks]
  generalize (str "topic." ++ decimal index).reverse = front
  have hparam : (str ".param.").reverse = [0x2E, 0x6D, 0x61, 0x72, 0x61, 0x70, 0x2E] := rfl
  rw [hparam]
  -- a key of at least five bytes contains the whole suffix, a shorter one meets `.param.`
  match paramKey.reverse with
  | [] => simp
  | [a] => simp
  | [a, b] => simp
  | [a, b, c] => simp
  | [a, b, c, d] => simp [eq_comm]
  | a :: b :: c :: d :: e :: rest => simp

theorem nameIndex_paramPath_eq_none {paramKey : StdString} (h : ¬ LooksLikeName paramKey)
    (index : Nat) : nameIndex (paramPath index paramKey) = none :=
  nameIndex_eq_none fun hsuffix => h ((name_suffix_paramPath_iff index paramKey).mp hsuffix)

theorem paramIndex_paramPath (index : Nat) (paramKey : StdString) :
    paramIndex (paramPath index paramKey) = some (decimal index, paramKey) := by
  have hstart : str "topic." <+: paramPath index paramKey :=
    ((List.prefix_append _ _).trans (List.prefix_append _ _)).trans (List.prefix_append _ _)
  have hparam : find (str ".param.") (str ".param." ++ paramKey) = some 0 :=
    find_eq_zero_iff.mpr (List.prefix_append _ _)
  have hdigits : find (str ".param.") (decimal index ++ (str ".param." ++ paramKey)) =
      some (decimal index).length := by
    have h := find_append_of_not_mem (not_mem_decimal (b := 0x2E) (by decide) index)
      (str "param.") (str ".param." ++ paramKey)
    change find (str ".param.") _ = (find (str ".param.") _).map _ at h
    rw [h, hparam]
    exact congrArg some (Nat.zero_add _)
  have hdot : find (str ".param.") (str "." ++ (decimal index ++ (str ".param." ++ paramKey))) =
      some ((decimal index).length + 1) := by
    change find (str ".param.") (0x2E :: (decimal index ++ (str ".param." ++ paramKey))) = _
    rw [find, hdigits, if_neg]
    · rfl
    · obtain ⟨b, digits, hb⟩ := List.exists_cons_of_ne_nil (decimal_ne_nil index)
      rw [hb]
      change ¬ 0x2E :: 0x70 :: str "aram." <+: _
      rw [List.cons_append, List.cons_prefix_cons, List.cons_prefix_cons]
      rintro ⟨_, rfl, _⟩
      exact not_mem_decimal (b := 0x70) (by decide) index (by simp [hb])
  have hfind : find (str ".param.") (paramPath index paramKey) =
      some ((decimal index).length + 6) := by
    have h := find_append_of_not_mem (show 0x2E ∉ str "topic" by decide) (str "param.")
      (str "." ++ (decimal index ++ (str ".param." ++ paramKey)))
    change find (str ".param.") _ = (find (str ".param.") _).map _ at h
    rw [hdot] at h
    simp only [paramPath, List.append_assoc]
    exact h
  rw [paramIndex, if_pos (find_eq_zero_iff.mpr hstart), hfind]
  dsimp only
  rw [substr, sizeSub, if_pos (by omega), Nat.add_sub_cancel]
  have hsplit : paramPath index paramKey =
      str "topic." ++ (decimal index ++ (str ".param." ++ paramKey)) := by
    simp only [paramPath, List.append_assoc]
  have hdrop : (paramPath index paramKey).drop ((decimal index).length + 6 + 7) = paramKey := by
    have hposition : (decimal index).length + 6 + 7 = 6 + ((decimal index).length + 7) := by omega
    rw [hsplit, hposition, ← List.drop_drop, ← List.drop_drop]
    change ((decimal index ++ (str ".param." ++ paramKey)).drop _).drop 7 = _
    rw [List.drop_left]
    rfl
  rw [hdrop, hsplit]
  exact congrArg (fun idxStr => some (idxStr, paramKey)) List.take_left

end DanWs.TopicPaths
