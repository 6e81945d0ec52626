namespace CodeIndex

instance decidableEqByteArray : DecidableEq ByteArray := ByteArray.instDecidableEq

end CodeIndex
