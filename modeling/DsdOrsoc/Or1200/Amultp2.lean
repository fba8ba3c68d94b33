import DsdOrsoc.Schemes.CarrySave
import DsdOrsoc.Schemes.PrefixAdder

/-! The multiplier `or1200_amultp2_32x32`, which the configuration of this design puts into the
    multiply unit: a netlist of a Booth coder, a Wallace tree with latches in it, an adder with
    parallel carries, and a result register.

        X, Y ──▶ BOOTHCODER_33_32 ──▶ WALLACE_33_32 ──▶ DBLCADDER_64_64 ──▶ RESULT
                 16 rows of bits       │ latches          sum + carry
                                       └─ 576 bits down to 64 + 63

    The gates and their connections are those of the netlist. The stages of the adder follow one
    rule each, and so do the rows of the Booth coder apart from the numbers of their outputs; the
    Wallace tree is listed cell by cell. -/

namespace DsdOrsoc.Or1200.Amultp2
open Schemes

/-! ### The Booth coder -/

def ppLow (onepos oneneg twoneg ina inb : Bool) : Bool :=
  (onepos && ina) || (oneneg && inb) || twoneg

def ppMiddle (onepos oneneg twopos twoneg ina inb inc ind : Bool) : Bool :=
  !(!(ina && twopos) && !(inb && twoneg) && !(inc && onepos) && !(ind && oneneg))

def ppHigh (onepos oneneg twopos twoneg ina inb : Bool) : Bool :=
  !((ina && onepos) || (inb && oneneg) || (ina && twopos) || (inb && twoneg))

def rGate (ina inb inc : Bool) : Bool := !(ina && inb) && inc

/-- The outputs of a `DECODER`: the multiple of the multiplicand that a row takes. -/
structure Digit where
  twopos : Bool
  twoneg : Bool
  onepos : Bool
  oneneg : Bool

def decoder (ina inb inc : Bool) : Digit where
  twopos := !(!(ina && inb && !inc))
  twoneg := !(!(!ina && !inb && inc))
  onepos := (!ina && inb && !inc) || (!inc && !inb && ina)
  oneneg := (ina && !inb && inc) || (inc && inb && !ina)

section BoothCoder

variable (opa opb : ℕ → Bool)

/-- The bit below the two of digit `i`. -/
def below (i : ℕ) : Bool := if i = 0 then false else opb (2 * i - 1)

def digit (i : ℕ) : Digit := decoder (below opb i) (opb (2 * i)) (opb (2 * i + 1))

/-- The bits of row `i`: `PPL_i`, `RGATE_i`, the 32 gates `PPM` and `PPH_i`. -/
def rowBits (i : ℕ) : List Bool :=
  let d := digit opb i
  ppLow d.onepos d.oneneg d.twoneg (opa 0) (!opa 0) ::
    rGate (below opb i) (opb (2 * i)) (opb (2 * i + 1)) ::
      ((List.range 32).map fun j =>
        ppMiddle d.onepos d.oneneg d.twopos d.twoneg (opa j) (!opa j) (opa (j + 1))
          (!opa (j + 1))) ++
      [ppHigh d.onepos d.oneneg d.twopos d.twoneg (opa 32) (!opa 32)]

/-- Where the bits of the rows go in `SUMMAND`. -/
def rows : List (List ℕ) :=
  [[0, 1, 2, 3, 6, 8, 12, 15, 20, 24, 30, 35, 42, 48, 56, 63, 72, 80, 90, 99, 110, 120, 132, 143,
      156, 168, 182, 195, 210, 224, 240, 255, 272, 288, 304],
    [4, 5, 7, 9, 13, 16, 21, 25, 31, 36, 43, 49, 57, 64, 73, 81, 91, 100, 111, 121, 133, 144, 157,
      169, 183, 196, 211, 225, 241, 256, 273, 289, 306, 321, 337],
    [10, 11, 14, 17, 22, 26, 32, 37, 44, 50, 58, 65, 74, 82, 92, 101, 112, 122, 134, 145, 158,
      170, 184, 197, 212, 226, 242, 257, 274, 290, 307, 323, 338, 352, 367],
    [18, 19, 23, 27, 33, 38, 45, 51, 59, 66, 75, 83, 93, 102, 113, 123, 135, 146, 159, 171, 185,
      198, 213, 227, 243, 258, 275, 291, 308, 324, 339, 354, 368, 381, 395],
    [28, 29, 34, 39, 46, 52, 60, 67, 76, 84, 94, 103, 114, 124, 136, 147, 160, 172, 186, 199, 214,
      228, 244, 259, 276, 292, 309, 325, 340, 355, 369, 383, 396, 408, 421],
    [40, 41, 47, 53, 61, 68, 77, 85, 95, 104, 115, 125, 137, 148, 161, 173, 187, 200, 215, 229,
      245, 260, 277, 293, 310, 326, 341, 356, 370, 384, 397, 410, 422, 433, 445],
    [54, 55, 62, 69, 78, 86, 96, 105, 116, 126, 138, 149, 162, 174, 188, 201, 216, 230, 246, 261,
      278, 294, 311, 327, 342, 357, 371, 385, 398, 411, 423, 435, 446, 456, 467],
    [70, 71, 79, 87, 97, 106, 117, 127, 139, 150, 163, 175, 189, 202, 217, 231, 247, 262, 279,
      295, 312, 328, 343, 358, 372, 386, 399, 412, 424, 436, 447, 458, 468, 477, 487],
    [88, 89, 98, 107, 118, 128, 140, 151, 164, 176, 190, 203, 218, 232, 248, 263, 280, 296, 313,
      329, 344, 359, 373, 387, 400, 413, 425, 437, 448, 459, 469, 479, 488, 496, 505],
    [108, 109, 119, 129, 141, 152, 165, 177, 191, 204, 219, 233, 249, 264, 281, 297, 314, 330,
      345, 360, 374, 388, 401, 414, 426, 438, 449, 460, 470, 480, 489, 498, 506, 513, 521],
    [130, 131, 142, 153, 166, 178, 192, 205, 220, 234, 250, 265, 282, 298, 315, 331, 346, 361,
      375, 389, 402, 415, 427, 439, 450, 461, 471, 481, 490, 499, 507, 515, 522, 528, 535],
    [154, 155, 167, 179, 193, 206, 221, 235, 251, 266, 283, 299, 316, 332, 347, 362, 376, 390,
      403, 416, 428, 440, 451, 462, 472, 482, 491, 500, 508, 516, 523, 530, 536, 541, 547],
    [180, 181, 194, 207, 222, 236, 252, 267, 284, 300, 317, 333, 348, 363, 377, 391, 404, 417,
      429, 441, 452, 463, 473, 483, 492, 501, 509, 517, 524, 531, 537, 543, 548, 552, 557],
    [208, 209, 223, 237, 253, 268, 285, 301, 318, 334, 349, 364, 378, 392, 405, 418, 430, 442,
      453, 464, 474, 484, 493, 502, 510, 518, 525, 532, 538, 544, 549, 554, 558, 561, 565],
    [238, 239, 254, 269, 286, 302, 319, 335, 350, 365, 379, 393, 406, 419, 431, 443, 454, 465,
      475, 485, 494, 503, 511, 519, 526, 533, 539, 545, 550, 555, 559, 563, 566, 568, 571],
    [270, 271, 287, 303, 320, 336, 351, 366, 380, 394, 407, 420, 432, 444, 455, 466, 476, 486,
      495, 504, 512, 520, 527, 534, 540, 546, 551, 556, 560, 564, 567, 570, 572, 573, 575]]

/-- The bits of `SUMMAND` that are constantly one. -/
def ones : List ℕ :=
  [305, 322, 353, 382, 409, 434, 457, 478, 497, 514, 529, 542, 553, 562, 569, 574]

/-- `BOOTHCODER_33_32`: the numbers of the bits of `SUMMAND` with their values. -/
def boothcoder : List (ℕ × Bool) :=
  (rows.zipIdx.flatMap fun r => r.1.zip (rowBits opa opb r.2)) ++ ones.map (·, true)

def summand (n : ℕ) : Bool := ((boothcoder opa opb).lookup n).getD false

end BoothCoder

/-! ### The Wallace tree -/

def fullAdder (dataA dataB dataC : Bool) : Bool × Bool :=
  let tmp := dataA ^^ dataB
  (tmp ^^ dataC, !(!(tmp && dataC) && !(dataA && dataB)))

def halfAdder (dataA dataB : Bool) : Bool × Bool := (dataA ^^ dataB, dataA && dataB)

/-- The adder cells of the netlist. -/
def adders : CarrySave.Adders where
  full := fullAdder
  half := halfAdder
  full_add := by decide
  half_add := by decide

/-- The outputs of the tree. -/
def sum (n : ℕ) : ℕ := 3000 + n

def carry (n : ℕ) : ℕ := 3100 + n

/-- The cells of `WALLACE_33_32` in their order, one list for each column of the sum. `SUMMAND[n]`
    is wire n, `INT_SUM[n]` is 1000 + n, `INT_CARRY[n]` is 2000 + n, `LATCHED_PP[n]` is 2600 + n,
    `SUM[n]` is 3000 + n and `CARRY[n]` is 3100 + n. -/
def columns : List (List CarrySave.Cell) :=
  [[.ha 0 1 1000 2000, .ff 1000 3000],
    [.ff 2000 3100, .wire 2 1001, .zero 3101, .ff 1001 3001],
    [.fa 3 4 5 1002 2001, .ff 1002 3002],
    [.ff 2001 3102, .ha 6 7 1003 2002, .ff 1003 3003],
    [.ff 2002 3103, .fa 8 9 10 1004 2004, .wire 11 1005, .ha 1004 1005 1006 2003, .ff 1006 3004],
    [.ff 2003 3104, .fa 12 13 14 1007 2006, .ha 1007 2004 1008 2005, .ff 1008 3005],
    [.ff 2005 3105, .fa 15 16 17 1009 2008, .ha 18 19 1010 2009, .fa 1009 1010 2006 1011 2007,
      .ff 1011 3006],
    [.ff 2007 3106, .fa 20 21 22 1012 2011, .wire 23 1013, .fa 1012 1013 2008 1014 2012,
      .wire 2009 1015, .ha 1014 1015 1016 2010, .ff 1016 3007],
    [.ff 2010 3107, .fa 24 25 26 1017 2014, .fa 27 28 29 1018 2015, .fa 1017 1018 2011 1019 2016,
      .ha 1019 2012 1020 2013, .ff 1020 3008],
    [.ff 2013 3108, .fa 30 31 32 1021 2018, .ha 33 34 1022 2019, .fa 1021 1022 2014 1023 2020,
      .wire 2015 1024, .fa 1023 1024 2016 1025 2017, .ff 1025 3009],
    [.ff 2017 3109, .fa 35 36 37 1026 2022, .fa 38 39 40 1027 2023, .wire 41 1028,
      .fa 1026 1027 1028 1029 2024, .ha 2018 2019 1030 2025, .fa 1029 1030 2020 1031 2021,
      .ff 1031 3010],
    [.ff 2021 3110, .fa 42 43 44 1032 2027, .fa 45 46 47 1033 2028, .fa 1032 1033 2022 1034 2029,
      .wire 2023 1035, .fa 1034 1035 2024 1036 2030, .wire 2025 1037, .ha 1036 1037 1038 2026,
      .ff 1038 3011],
    [.ff 2026 3111, .fa 48 49 50 1039 2032, .fa 51 52 53 1040 2033, .wire 54 1041, .wire 55 1042,
      .fa 1039 1040 1041 1043 2034, .fa 1042 2027 2028 1044 2035, .fa 1043 1044 2029 1045 2036,
      .ha 1045 2030 1046 2031, .ff 1046 3012],
    [.ff 2031 3112, .fa 56 57 58 1047 2038, .fa 59 60 61 1048 2039, .wire 62 1049,
      .fa 1047 1048 1049 1050 2040, .ha 2032 2033 1051 2041, .fa 1050 1051 2034 1052 2042,
      .wire 2035 1053, .fa 1052 1053 2036 1054 2037, .ff 1054 3013],
    [.ff 2037 3113, .fa 63 64 65 1055 2044, .fa 66 67 68 1056 2045, .fa 69 70 71 1057 2046,
      .fa 1055 1056 1057 1058 2047, .ha 2038 2039 1059 2048, .fa 1058 1059 2040 1060 2049,
      .wire 2041 1061, .fa 1060 1061 2042 1062 2043, .ff 1062 3014],
    [.ff 2043 3114, .fa 72 73 74 1063 2051, .fa 75 76 77 1064 2052, .ha 78 79 1065 2053,
      .fa 1063 1064 1065 1066 2054, .fa 2044 2045 2046 1067 2055, .fa 1066 1067 2047 1068 2056,
      .wire 2048 1069, .fa 1068 1069 2049 1070 2050, .ff 1070 3015],
    [.ff 2050 3115, .fa 80 81 82 1071 2058, .fa 83 84 85 1072 2059, .fa 86 87 88 1073 2060,
      .wire 89 1074, .fa 1071 1072 1073 1075 2061, .fa 1074 2051 2052 1076 2062, .wire 2053 1077,
      .fa 1075 1076 1077 1078 2063, .ha 2054 2055 1079 2064, .fa 1078 1079 2056 1080 2057,
      .ff 1080 3016],
    [.ff 2057 3116, .fa 90 91 92 1081 2065, .fa 93 94 95 1082 2066, .fa 96 97 98 1083 2067,
      .fa 1081 1082 1083 1084 2068, .fa 2058 2059 2060 1085 2069, .fa 1084 1085 2061 1086 2070,
      .wire 2062 1087, .fa 1086 1087 2063 1088 2071, .wire 2064 1090, .ff 1088 1089,
      .ff 1090 1091, .ha 1089 1091 3017 3117],
    [.fa 99 100 101 1092 2073, .fa 102 103 104 1093 2074, .fa 105 106 107 1094 2075,
      .wire 108 1095, .wire 109 1096, .fa 1092 1093 1094 1097 2076, .fa 1095 1096 2065 1098 2077,
      .wire 2066 1099, .wire 2067 1100, .fa 1097 1098 1099 1101 2078,
      .fa 1100 2068 2069 1102 2079, .fa 1101 1102 2070 1103 2080, .ff 1103 1104, .ff 2071 2072,
      .ha 1104 2072 3018 3118],
    [.fa 110 111 112 1105 2082, .fa 113 114 115 1106 2083, .fa 116 117 118 1107 2084,
      .wire 119 1108, .fa 1105 1106 1107 1109 2085, .fa 1108 2073 2074 1110 2086, .wire 2075 1111,
      .fa 1109 1110 1111 1112 2087, .ha 2076 2077 1113 2088, .fa 1112 1113 2078 1114 2089,
      .wire 2079 1116, .ff 1114 1115, .ff 1116 1117, .ff 2080 2081, .fa 1115 1117 2081 3019 3119],
    [.fa 120 121 122 1118 2091, .fa 123 124 125 1119 2092, .fa 126 127 128 1120 2093,
      .fa 129 130 131 1121 2094, .fa 1118 1119 1120 1122 2095, .fa 1121 2082 2083 1123 2096,
      .wire 2084 1124, .fa 1122 1123 1124 1125 2097, .ha 2085 2086 1126 2098,
      .fa 1125 1126 2087 1127 2099, .wire 2088 1129, .ff 1127 1128, .ff 1129 1130, .ff 2089 2090,
      .fa 1128 1130 2090 3020 3120],
    [.fa 132 133 134 1131 2101, .fa 135 136 137 1132 2102, .fa 138 139 140 1133 2103,
      .wire 141 1134, .wire 142 1135, .fa 1131 1132 1133 1136 2104, .fa 1134 1135 2091 1137 2105,
      .fa 2092 2093 2094 1138 2106, .fa 1136 1137 1138 1139 2107, .ha 2095 2096 1140 2108,
      .fa 1139 1140 2097 1141 2109, .wire 2098 1143, .ff 1141 1142, .ff 1143 1144, .ff 2099 2100,
      .fa 1142 1144 2100 3021 3121],
    [.fa 143 144 145 1145 2111, .fa 146 147 148 1146 2112, .fa 149 150 151 1147 2113,
      .fa 152 153 154 1148 2114, .wire 155 1149, .fa 1145 1146 1147 1150 2115,
      .fa 1148 1149 2101 1151 2116, .ha 2102 2103 1152 2117, .fa 1150 1151 1152 1153 2118,
      .fa 2104 2105 2106 1154 2119, .fa 1153 1154 2107 1155 2120, .wire 2108 1157, .ff 1155 1156,
      .ff 1157 1158, .ff 2109 2110, .fa 1156 1158 2110 3022 3122],
    [.fa 156 157 158 1159 2122, .fa 159 160 161 1160 2123, .fa 162 163 164 1161 2124,
      .fa 165 166 167 1162 2125, .fa 1159 1160 1161 1163 2126, .fa 1162 2111 2112 1164 2127,
      .ha 2113 2114 1165 2128, .fa 1163 1164 1165 1166 2129, .fa 2115 2116 2117 1167 2130,
      .fa 1166 1167 2118 1168 2131, .wire 2119 1170, .ff 1168 1169, .ff 1170 1171, .ff 2120 2121,
      .fa 1169 1171 2121 3023 3123],
    [.fa 168 169 170 1172 2133, .fa 171 172 173 1173 2134, .fa 174 175 176 1174 2135,
      .fa 177 178 179 1175 2136, .ha 180 181 1176 2137, .fa 1172 1173 1174 1177 2138,
      .fa 1175 1176 2122 1178 2139, .fa 2123 2124 2125 1179 2140, .fa 1177 1178 1179 1180 2141,
      .fa 2126 2127 2128 1181 2142, .fa 1180 1181 2129 1182 2143, .wire 2130 1184, .ff 1182 1183,
      .ff 1184 1185, .ff 2131 2132, .fa 1183 1185 2132 3024 3124],
    [.fa 182 183 184 1186 2145, .fa 185 186 187 1187 2146, .fa 188 189 190 1188 2147,
      .fa 191 192 193 1189 2148, .wire 194 1190, .fa 1186 1187 1188 1191 2149,
      .fa 1189 1190 2133 1192 2150, .fa 2134 2135 2136 1193 2151, .wire 2137 1194,
      .fa 1191 1192 1193 1195 2152, .fa 1194 2138 2139 1196 2153, .wire 2140 1197,
      .fa 1195 1196 1197 1198 2154, .ha 2141 2142 1200 2156, .ff 1198 1199, .ff 1200 1201,
      .ff 2143 2144, .fa 1199 1201 2144 3025 3125],
    [.fa 195 196 197 1202 2158, .fa 198 199 200 1203 2159, .fa 201 202 203 1204 2160,
      .fa 204 205 206 1205 2161, .fa 207 208 209 1206 2162, .fa 1202 1203 1204 1207 2163,
      .fa 1205 1206 2145 1208 2164, .fa 2146 2147 2148 1209 2165, .fa 1207 1208 1209 1210 2166,
      .fa 2149 2150 2151 1211 2167, .fa 1210 1211 2152 1212 2168, .wire 2153 1214, .ff 1212 1213,
      .ff 1214 1215, .ff 2154 2155, .fa 1213 1215 2155 1216 2170, .ff 2156 2157, .wire 2157 1217,
      .ha 1216 1217 3026 3126],
    [.fa 210 211 212 1218 2171, .fa 213 214 215 1219 2172, .fa 216 217 218 1220 2173,
      .fa 219 220 221 1221 2174, .ha 222 223 1222 2175, .fa 1218 1219 1220 1223 2176,
      .fa 1221 1222 2158 1224 2177, .fa 2159 2160 2161 1225 2178, .wire 2162 1226,
      .fa 1223 1224 1225 1227 2179, .fa 1226 2163 2164 1228 2180, .wire 2165 1229,
      .fa 1227 1228 1229 1230 2181, .wire 2166 1232, .wire 2167 1234, .ff 1230 1231,
      .ff 1232 1233, .ff 1234 1235, .fa 1231 1233 1235 1236 2183, .ff 2168 2169, .wire 2169 1237,
      .fa 1236 1237 2170 3027 3127],
    [.fa 224 225 226 1238 2184, .fa 227 228 229 1239 2185, .fa 230 231 232 1240 2186,
      .fa 233 234 235 1241 2187, .fa 236 237 238 1242 2188, .wire 239 1243,
      .fa 1238 1239 1240 1244 2189, .fa 1241 1242 1243 1245 2190, .fa 2171 2172 2173 1246 2191,
      .wire 2174 1247, .wire 2175 1248, .fa 1244 1245 1246 1249 2192,
      .fa 1247 1248 2176 1250 2193, .wire 2177 1251, .wire 2178 1252,
      .fa 1249 1250 1251 1253 2194, .fa 1252 2179 2180 1255 2196, .ff 1253 1254, .ff 1255 1256,
      .ff 2181 2182, .fa 1254 1256 2182 1257 2198, .ha 1257 2183 3028 3128],
    [.fa 240 241 242 1258 2199, .fa 243 244 245 1259 2200, .fa 246 247 248 1260 2201,
      .fa 249 250 251 1261 2202, .fa 252 253 254 1262 2203, .fa 1258 1259 1260 1263 2204,
      .fa 1261 1262 2184 1264 2205, .fa 2185 2186 2187 1265 2206, .wire 2188 1266,
      .fa 1263 1264 1265 1267 2207, .fa 1266 2189 2190 1268 2208, .wire 2191 1269,
      .fa 1267 1268 1269 1270 2209, .ha 2192 2193 1272 2211, .ff 1270 1271, .ff 1272 1273,
      .ff 2194 2195, .fa 1271 1273 2195 1274 2213, .ff 2196 2197, .wire 2197 1275,
      .fa 1274 1275 2198 3029 3129],
    [.fa 255 256 257 1276 2214, .fa 258 259 260 1277 2215, .fa 261 262 263 1278 2216,
      .fa 264 265 266 1279 2217, .fa 267 268 269 1280 2218, .wire 270 1281, .wire 271 1282,
      .fa 1276 1277 1278 1283 2219, .fa 1279 1280 1281 1284 2220, .fa 1282 2199 2200 1285 2221,
      .fa 2201 2202 2203 1286 2222, .fa 1283 1284 1285 1287 2223, .fa 1286 2204 2205 1288 2224,
      .wire 2206 1289, .fa 1287 1288 1289 1290 2225, .ha 2207 2208 1292 2227, .ff 1290 1291,
      .ff 1292 1293, .ff 2209 2210, .fa 1291 1293 2210 1294 2229, .ff 2211 2212, .wire 2212 1295,
      .fa 1294 1295 2213 3030 3130],
    [.fa 272 273 274 1296 2230, .fa 275 276 277 1297 2231, .fa 278 279 280 1298 2232,
      .fa 281 282 283 1299 2233, .fa 284 285 286 1300 2234, .wire 287 1301,
      .fa 1296 1297 1298 1302 2235, .fa 1299 1300 1301 1303 2236, .fa 2214 2215 2216 1304 2237,
      .wire 2217 1305, .wire 2218 1306, .fa 1302 1303 1304 1307 2238,
      .fa 1305 1306 2219 1308 2239, .fa 2220 2221 2222 1309 2240, .fa 1307 1308 1309 1310 2241,
      .ha 2223 2224 1312 2243, .ff 1310 1311, .ff 1312 1313, .ff 2225 2226,
      .fa 1311 1313 2226 1314 2245, .ff 2227 2228, .wire 2228 1315, .fa 1314 1315 2229 3031 3131],
    [.fa 288 289 290 1316 2246, .fa 291 292 293 1317 2247, .fa 294 295 296 1318 2248,
      .fa 297 298 299 1319 2249, .fa 300 301 302 1320 2250, .wire 303 1321,
      .fa 1316 1317 1318 1322 2251, .fa 1319 1320 1321 1323 2252, .fa 2230 2231 2232 1324 2253,
      .ha 2233 2234 1325 2254, .fa 1322 1323 1324 1326 2255, .fa 1325 2235 2236 1327 2256,
      .wire 2237 1328, .fa 1326 1327 1328 1329 2257, .fa 2238 2239 2240 1331 2259, .ff 1329 1330,
      .ff 1331 1332, .ff 2241 2242, .fa 1330 1332 2242 1333 2261, .ff 2243 2244, .wire 2244 1334,
      .fa 1333 1334 2245 3032 3132],
    [.fa 304 305 306 1335 2262, .fa 307 308 309 1336 2263, .fa 310 311 312 1337 2264,
      .fa 313 314 315 1338 2265, .fa 316 317 318 1339 2266, .wire 319 1340, .wire 320 1341,
      .fa 1335 1336 1337 1342 2267, .fa 1338 1339 1340 1343 2268, .fa 1341 2246 2247 1344 2269,
      .fa 2248 2249 2250 1345 2270, .fa 1342 1343 1344 1346 2271, .fa 1345 2251 2252 1347 2272,
      .wire 2253 1348, .wire 2254 1349, .fa 1346 1347 1348 1350 2273,
      .fa 1349 2255 2256 1352 2275, .ff 1350 1351, .ff 1352 1353, .ff 2257 2258,
      .fa 1351 1353 2258 1354 2277, .ff 2259 2260, .wire 2260 1355, .fa 1354 1355 2261 3033 3133],
    [.fa 321 322 323 1356 2278, .fa 324 325 326 1357 2279, .fa 327 328 329 1358 2280,
      .fa 330 331 332 1359 2281, .fa 333 334 335 1360 2282, .wire 336 1361,
      .fa 1356 1357 1358 1362 2283, .fa 1359 1360 1361 1363 2284, .fa 2262 2263 2264 1364 2285,
      .wire 2265 1365, .wire 2266 1366, .fa 1362 1363 1364 1367 2286,
      .fa 1365 1366 2267 1368 2287, .fa 2268 2269 2270 1369 2288, .fa 1367 1368 1369 1370 2289,
      .ha 2271 2272 1372 2291, .ff 1370 1371, .ff 1372 1373, .ff 2273 2274,
      .fa 1371 1373 2274 1374 2293, .ff 2275 2276, .wire 2276 1375, .fa 1374 1375 2277 3034 3134],
    [.fa 337 338 339 1376 2294, .fa 340 341 342 1377 2295, .fa 343 344 345 1378 2296,
      .fa 346 347 348 1379 2297, .fa 349 350 351 1380 2298, .fa 1376 1377 1378 1381 2299,
      .fa 1379 1380 2278 1382 2300, .fa 2279 2280 2281 1383 2301, .wire 2282 1384,
      .fa 1381 1382 1383 1385 2302, .fa 1384 2283 2284 1386 2303, .wire 2285 1387,
      .fa 1385 1386 1387 1388 2304, .fa 2286 2287 2288 1390 2306, .ff 1388 1389, .ff 1390 1391,
      .ff 2289 2290, .fa 1389 1391 2290 1392 2308, .ff 2291 2292, .wire 2292 1393,
      .fa 1392 1393 2293 3035 3135],
    [.fa 352 353 354 1394 2309, .fa 355 356 357 1395 2310, .fa 358 359 360 1396 2311,
      .fa 361 362 363 1397 2312, .fa 364 365 366 1398 2313, .fa 1394 1395 1396 1399 2314,
      .fa 1397 1398 2294 1400 2315, .fa 2295 2296 2297 1401 2316, .wire 2298 1402,
      .fa 1399 1400 1401 1403 2317, .fa 1402 2299 2300 1404 2318, .wire 2301 1405,
      .fa 1403 1404 1405 1406 2319, .ha 2302 2303 1408 2321, .ff 1406 1407, .ff 1408 1409,
      .ff 2304 2305, .fa 1407 1409 2305 1410 2323, .ff 2306 2307, .wire 2307 1411,
      .fa 1410 1411 2308 3036 3136],
    [.fa 367 368 369 1412 2324, .fa 370 371 372 1413 2325, .fa 373 374 375 1414 2326,
      .fa 376 377 378 1415 2327, .ha 379 380 1416 2328, .fa 1412 1413 1414 1417 2329,
      .fa 1415 1416 2309 1418 2330, .fa 2310 2311 2312 1419 2331, .wire 2313 1420,
      .fa 1417 1418 1419 1421 2332, .fa 1420 2314 2315 1422 2333, .wire 2316 1423,
      .fa 1421 1422 1423 1424 2334, .ha 2317 2318 1426 2336, .ff 1424 1425, .ff 1426 1427,
      .ff 2319 2320, .fa 1425 1427 2320 1428 2338, .ff 2321 2322, .wire 2322 1429,
      .fa 1428 1429 2323 3037 3137],
    [.fa 381 382 383 1430 2339, .fa 384 385 386 1431 2340, .fa 387 388 389 1432 2341,
      .fa 390 391 392 1433 2342, .ha 393 394 1434 2343, .fa 1430 1431 1432 1435 2344,
      .fa 1433 1434 2324 1436 2345, .fa 2325 2326 2327 1437 2346, .wire 2328 1438,
      .fa 1435 1436 1437 1439 2347, .fa 1438 2329 2330 1440 2348, .wire 2331 1441,
      .fa 1439 1440 1441 1442 2349, .ha 2332 2333 1444 2351, .ff 1442 1443, .ff 1444 1445,
      .ff 2334 2335, .fa 1443 1445 2335 1446 2353, .ff 2336 2337, .wire 2337 1447,
      .fa 1446 1447 2338 3038 3138],
    [.fa 395 396 397 1448 2354, .fa 398 399 400 1449 2355, .fa 401 402 403 1450 2356,
      .fa 404 405 406 1451 2357, .wire 407 1452, .fa 1448 1449 1450 1453 2358,
      .fa 1451 1452 2339 1454 2359, .fa 2340 2341 2342 1455 2360, .wire 2343 1456,
      .fa 1453 1454 1455 1457 2361, .fa 1456 2344 2345 1458 2362, .wire 2346 1459,
      .fa 1457 1458 1459 1460 2363, .ha 2347 2348 1462 2365, .ff 1460 1461, .ff 1462 1463,
      .ff 2349 2350, .fa 1461 1463 2350 1464 2367, .ff 2351 2352, .wire 2352 1465,
      .fa 1464 1465 2353 3039 3139],
    [.fa 408 409 410 1466 2368, .fa 411 412 413 1467 2369, .fa 414 415 416 1468 2370,
      .fa 417 418 419 1469 2371, .fa 420 2354 2355 1470 2372, .wire 2356 1471, .wire 2357 1472,
      .fa 1466 1467 1468 1473 2373, .fa 1469 1470 1471 1474 2374, .fa 1472 2358 2359 1475 2375,
      .wire 2360 1476, .fa 1473 1474 1475 1477 2376, .fa 1476 2361 2362 1479 2378, .ff 1477 1478,
      .ff 1479 1480, .ff 2363 2364, .fa 1478 1480 2364 1481 2380, .ff 2365 2366, .wire 2366 1482,
      .fa 1481 1482 2367 3040 3140],
    [.fa 421 422 423 1483 2381, .fa 424 425 426 1484 2382, .fa 427 428 429 1485 2383,
      .fa 430 431 432 1486 2384, .fa 1483 1484 1485 1487 2385, .fa 1486 2368 2369 1488 2386,
      .fa 2370 2371 2372 1489 2387, .fa 1487 1488 1489 1490 2388, .fa 2373 2374 2375 1492 2390,
      .ff 1490 1491, .ff 1492 1493, .ff 2376 2377, .fa 1491 1493 2377 1494 2392, .ff 2378 2379,
      .wire 2379 1495, .fa 1494 1495 2380 3041 3141],
    [.fa 433 434 435 1496 2393, .fa 436 437 438 1497 2394, .fa 439 440 441 1498 2395,
      .fa 442 443 444 1499 2396, .fa 1496 1497 1498 1500 2397, .fa 1499 2381 2382 1501 2398,
      .ha 2383 2384 1502 2399, .fa 1500 1501 1502 1503 2400, .fa 2385 2386 2387 1505 2402,
      .ff 1503 1504, .ff 1505 1506, .ff 2388 2389, .fa 1504 1506 2389 1507 2404, .ff 2390 2391,
      .wire 2391 1508, .fa 1507 1508 2392 3042 3142],
    [.fa 445 446 447 1509 2405, .fa 448 449 450 1510 2406, .fa 451 452 453 1511 2407,
      .wire 454 1512, .wire 455 1513, .fa 1509 1510 1511 1514 2408, .fa 1512 1513 2393 1515 2409,
      .fa 2394 2395 2396 1516 2410, .fa 1514 1515 1516 1517 2411, .fa 2397 2398 2399 1519 2413,
      .ff 1517 1518, .ff 1519 1520, .ff 2400 2401, .fa 1518 1520 2401 1521 2415, .ff 2402 2403,
      .wire 2403 1522, .fa 1521 1522 2404 3043 3143],
    [.fa 456 457 458 1523 2416, .fa 459 460 461 1524 2417, .fa 462 463 464 1525 2418,
      .ha 465 466 1526 2419, .fa 1523 1524 1525 1527 2420, .fa 1526 2405 2406 1528 2421,
      .wire 2407 1529, .fa 1527 1528 1529 1530 2422, .fa 2408 2409 2410 1532 2424, .ff 1530 1531,
      .ff 1532 1533, .ff 2411 2412, .fa 1531 1533 2412 1534 2426, .ff 2413 2414, .wire 2414 1535,
      .fa 1534 1535 2415 3044 3144],
    [.fa 467 468 469 1536 2427, .fa 470 471 472 1537 2428, .fa 473 474 475 1538 2429,
      .wire 476 1539, .fa 1536 1537 1538 1540 2430, .fa 1539 2416 2417 1541 2431, .wire 2418 1542,
      .wire 2419 1543, .fa 1540 1541 1542 1544 2432, .fa 1543 2420 2421 1546 2434, .ff 1544 1545,
      .ff 1546 1547, .ff 2422 2423, .fa 1545 1547 2423 1548 2436, .ff 2424 2425, .wire 2425 1549,
      .fa 1548 1549 2426 3045 3145],
    [.fa 477 478 479 1550 2437, .fa 480 481 482 1551 2438, .fa 483 484 485 1552 2439,
      .wire 486 1553, .fa 1550 1551 1552 1554 2440, .fa 1553 2427 2428 1555 2441, .wire 2429 1556,
      .fa 1554 1555 1556 1557 2442, .ha 2430 2431 1559 2444, .ff 1557 1558, .ff 1559 1560,
      .ff 2432 2433, .fa 1558 1560 2433 1561 2446, .ff 2434 2435, .wire 2435 1562,
      .fa 1561 1562 2436 3046 3146],
    [.fa 487 488 489 1563 2447, .fa 490 491 492 1564 2448, .fa 493 494 495 1565 2449,
      .fa 1563 1564 1565 1566 2450, .fa 2437 2438 2439 1567 2451, .fa 1566 1567 2440 1568 2452,
      .wire 2441 1570, .ff 1568 1569, .ff 1570 1571, .ff 2442 2443, .fa 1569 1571 2443 1572 2454,
      .ff 2444 2445, .wire 2445 1573, .fa 1572 1573 2446 3047 3147],
    [.fa 496 497 498 1574 2455, .fa 499 500 501 1575 2456, .fa 502 503 504 1576 2457,
      .fa 1574 1575 1576 1577 2458, .fa 2447 2448 2449 1578 2459, .fa 1577 1578 2450 1579 2460,
      .wire 2451 1581, .ff 1579 1580, .ff 1581 1582, .ff 2452 2453, .fa 1580 1582 2453 1583 2462,
      .ha 1583 2454 3048 3148],
    [.fa 505 506 507 1584 2463, .fa 508 509 510 1585 2464, .fa 511 512 2455 1586 2465,
      .ha 2456 2457 1587 2466, .fa 1584 1585 1586 1588 2467, .fa 1587 2458 2459 1590 2469,
      .ff 1588 1589, .ff 1590 1591, .ff 2460 2461, .fa 1589 1591 2461 1592 2471,
      .ha 1592 2462 3049 3149],
    [.fa 513 514 515 1593 2472, .fa 516 517 518 1594 2473, .wire 519 1595, .wire 520 1596,
      .fa 1593 1594 1595 1597 2474, .wire 1596 1598, .fa 1597 1598 2463 1599 2475,
      .fa 2464 2465 2466 1601 2477, .ff 1599 1600, .ff 1601 1602, .ff 2467 2468,
      .fa 1600 1602 2468 1603 2479, .ff 2469 2470, .wire 2470 1604, .fa 1603 1604 2471 3050 3150],
    [.fa 521 522 523 1605 2480, .fa 524 525 526 1606 2481, .fa 527 2472 2473 1607 2482,
      .fa 1605 1606 1607 1608 2483, .wire 2474 1610, .ff 1608 1609, .ff 1610 1611, .ff 2475 2476,
      .fa 1609 1611 2476 1612 2485, .ff 2477 2478, .wire 2478 1613, .fa 1612 1613 2479 3051 3151],
    [.fa 528 529 530 1614 2486, .fa 531 532 533 1615 2487, .wire 534 1616,
      .fa 1614 1615 1616 1617 2488, .fa 2480 2481 2482 1619 2490, .ff 1617 1618, .ff 1619 1620,
      .ff 2483 2484, .fa 1618 1620 2484 1621 2492, .ha 1621 2485 3052 3152],
    [.fa 535 536 537 1622 2493, .fa 538 539 540 1623 2494, .fa 1622 1623 2486 1624 2495,
      .wire 2487 1626, .ff 1624 1625, .ff 1626 1627, .ff 2488 2489, .fa 1625 1627 2489 1628 2497,
      .ff 2490 2491, .wire 2491 1629, .fa 1628 1629 2492 3053 3153],
    [.fa 541 542 543 1630 2498, .fa 544 545 546 1631 2499, .fa 1630 1631 2493 1632 2500,
      .wire 2494 1634, .ff 1632 1633, .ff 1634 1635, .ff 2495 2496, .fa 1633 1635 2496 1636 2502,
      .ha 1636 2497 3054 3154],
    [.fa 547 548 549 1637 2503, .ha 550 551 1638 2504, .fa 1637 1638 2498 1639 2505,
      .wire 2499 1641, .ff 1639 1640, .ff 1641 1642, .ff 2500 2501, .fa 1640 1642 2501 1643 2507,
      .ha 1643 2502 3055 3155],
    [.fa 552 553 554 1644 2508, .ha 555 556 1645 2509, .fa 1644 1645 2503 1646 2510,
      .wire 2504 1648, .ff 1646 1647, .ff 1648 1649, .ff 2505 2506, .fa 1647 1649 2506 1650 2512,
      .ha 1650 2507 3056 3156],
    [.fa 557 558 559 1651 2513, .fa 560 2508 2509 1653 2515, .ff 1651 1652, .ff 1653 1654,
      .ff 2510 2511, .fa 1652 1654 2511 1655 2517, .ha 1655 2512 3057 3157],
    [.fa 561 562 563 1656 2518, .wire 564 1658, .ff 1656 1657, .ff 1658 1659, .ff 2513 2514,
      .fa 1657 1659 2514 1660 2520, .ff 2515 2516, .wire 2516 1661, .fa 1660 1661 2517 3058 3158],
    [.fa 565 566 567 1662 2521, .ff 1662 1663, .wire 1663 1664, .ff 2518 2519, .wire 2519 1665,
      .fa 1664 1665 2520 3059 3159],
    [.ff 568 2600, .ff 569 2601, .ff 570 2602, .fa 2600 2601 2602 1666 2523, .ff 2521 2522,
      .wire 2522 1667, .ha 1666 1667 3060 3160],
    [.ff 571 2603, .wire 2603 1668, .ff 572 2604, .wire 2604 1669, .fa 1668 1669 2523 3061 3161],
    [.ff 573 2605, .ff 574 2606, .ha 2605 2606 3062 3162],
    [.ff 575 2607, .wire 2607 3063]]

/-! ### The adder -/

def invblock (gin : Bool) : Bool := !gin

def xxor1 (a b gin : Bool) : Bool := !(a ^^ b) ^^ gin

/-- `POUT` and `GOUT`. -/
def block0 (a b : Bool) : Bool × Bool := (!(a || b), !(a && b))

def block1A (pin2 gin1 gin2 : Bool) : Bool := !(gin2 && (pin2 || gin1))

def block2A (pin2 gin1 gin2 : Bool) : Bool := !(gin2 || (pin2 && gin1))

def block1 (pin1 pin2 gin1 gin2 : Bool) : Bool × Bool :=
  (!(pin1 || pin2), !(gin2 && (pin2 || gin1)))

def block2 (pin1 pin2 gin1 gin2 : Bool) : Bool × Bool :=
  (!(pin1 && pin2), !(gin2 || (pin2 && gin1)))

/-- Lines `P` and `G` between two stages. -/
structure Lines where
  p : ℕ → Bool
  g : ℕ → Bool

/-- `PRESTAGE_64`. -/
def prestage (a b : ℕ → Bool) (cin : Bool) : Lines where
  p i := (block0 (a i) (b i)).1
  g
    | 0 => invblock cin
    | i + 1 => (block0 (a i) (b i)).2

/-- The stages `DBLC_0_64` to `DBLC_5_64`; stage `k` has span 2^k. The even stages have the cells
    BLOCK1 and BLOCK1A, the odd ones BLOCK2 and BLOCK2A. -/
def dblc (k : ℕ) (l : Lines) : Lines :=
  let s := 2 ^ k
  let block := if k % 2 = 0 then block1 else block2
  let blockA := if k % 2 = 0 then block1A else block2A
  { p := fun j => (block (l.p j) (l.p (j + s)) (l.g (j + s)) (l.g (j + 2 * s))).1
    g := fun i =>
      if i < s then invblock (l.g i)
      else if i < 2 * s then blockA (l.p (i - s)) (l.g (i - s)) (l.g i)
      else (block (l.p (i - 2 * s)) (l.p (i - s)) (l.g (i - s)) (l.g i)).2 }

/-- `DBLCTREE_64`. -/
def dblctree (l : Lines) : Lines := dblc 5 (dblc 4 (dblc 3 (dblc 2 (dblc 1 (dblc 0 l)))))

/-- `DBLCADDER_64_64`: `SUM` and `COUT`. -/
def dblcadder (a b : ℕ → Bool) (cin : Bool) : (ℕ → Bool) × Bool :=
  let l := dblctree (prestage a b cin)
  (fun i => xxor1 (a i) (b i) (l.g i), block1A (l.p 0) (l.g 0) (l.g 64))

end DsdOrsoc.Or1200.Amultp2

namespace DsdOrsoc.Or1200
open Schemes

/-! ### The multiplier -/

/-- `MULTIPLIER_33_32`: the wires of the tree at the last clock edge, which its latches show, and
    the result register. -/
structure Amultp2 where
  wires : ℕ → Bool
  result : BitVec 64

namespace Amultp2

def reset : Amultp2 where
  wires _ := false
  result := 0

variable (s : Amultp2) (x y : BitVec 32)

/-- The multiplicand has one more bit, the sign. -/
def opA (j : ℕ) : Bool := if j = 32 then x.getLsbD 31 else x.getLsbD j

/-- The wires of the tree. -/
def wallace : ℕ → Bool :=
  CarrySave.eval adders s.wires (summand (opA x) y.getLsbD) columns.flatten

def intCarry : ℕ → Bool
  | 0 => false
  | k + 1 => s.wallace x y (carry k)

/-- `ARESULT`. -/
def aresult (i : ℕ) : Bool :=
  (dblcadder (fun i => s.wallace x y (sum i)) (s.intCarry x y) false).1 i

/-- One rising edge of the clock. -/
def clk : Amultp2 where
  wires := s.wallace x y
  result := BitVec.ofNat 64 (Nat.ofBits fun i : Fin 64 => s.aresult x y i)

end Amultp2

end DsdOrsoc.Or1200
